import Chip8.Proofs.Transfers

/-!
Ranges of memory, byte by byte. Reading a range is reading its bytes one after another, up to the
first that is not there (`readRange_eq_mapM`). Writing a range is writing its bytes one after
another if all of them are there; if one is not, the fault is that of this byte, but the bytes
before it are not written (`writeRange_eq_writeEach`).
-/

namespace Chip8

namespace Memory

/-- Writes bytes to the addresses from `a` on, one after another. What was written before a fault
remains. -/
def writeEach (m : Memory) (a : Nat) : List UInt8 → EStateM.Result Fault Memory Unit
  | [] => .ok () m
  | b :: rest =>
    match m.write a b with
    | .ok n => n.writeEach (a + 1) rest
    | .error f => .error f m

/-- What comes of writing all or nothing, where writing bytes one by one comes to `r`. -/
def allOrNothing : EStateM.Result Fault Memory Unit → Except Fault Memory
  | .ok _ n => .ok n
  | .error f _ => .error f

/-- A range within memory is a byte within memory and a range behind it. -/
theorem fits_succ_iff (a len : Nat) : Fits a (len + 1) ↔ a < size ∧ Fits (a + 1) len := by
  unfold Fits size
  omega

theorem firstOutside_of_size_le {a : Nat} (h : size ≤ a) : firstOutside a = a :=
  Nat.max_eq_left h

/-- A range that begins within memory leaves it at the top. -/
theorem firstOutside_of_lt {a : Nat} (h : a < size) : firstOutside a = firstOutside (a + 1) := by
  rw [firstOutside, firstOutside, Nat.max_eq_right (Nat.le_of_lt h), Nat.max_eq_right h]

theorem read_of_lt (m : Memory) {a : Nat} (h : a < size) :
    ∃ b, m.byte? a = some b ∧ m.read a = .ok b := by
  cases hb : m.byte? a with
  | none => exact absurd ((m.byte?_eq_none_iff a).mp hb) (Nat.not_le_of_lt h)
  | some b => exact ⟨b, rfl, by rw [read, hb]⟩

theorem read_of_size_le (m : Memory) {a : Nat} (h : size ≤ a) :
    m.read a = .error (.addressOutOfRange a) := by
  rw [read, (m.byte?_eq_none_iff a).mpr h]

theorem readRange_of_not_fits (m : Memory) {a len : Nat} (h : ¬ Fits a len) :
    m.readRange a len = .error (.addressOutOfRange (firstOutside a)) := by
  refine (m.readRange_eq_error_iff a len _).mpr ⟨Nat.pos_of_ne_zero fun hz => ?_, ?_, rfl⟩
  · exact h (Or.inl hz)
  · exact Nat.lt_of_not_le fun hle => h (Or.inr hle)

/-- A range that is not empty is its first byte and the range behind it. -/
theorem readRange_succ (m : Memory) (a len : Nat) :
    m.readRange a (len + 1) = (do
      let b ← m.read a
      let rest ← m.readRange (a + 1) len
      return b :: rest) := by
  by_cases ha : a < size
  · obtain ⟨b, hb, hread⟩ := m.read_of_lt ha
    rw [hread]
    by_cases hfit : Fits (a + 1) len
    · obtain ⟨rest, hrest⟩ := m.readRange_of_fits hfit
      obtain ⟨data, hdata⟩ := m.readRange_of_fits ((fits_succ_iff a len).mpr ⟨ha, hfit⟩)
      have hsame : data = b :: rest := by
        apply List.ext_getElem?
        intro k
        rw [getElem?_readRange hdata]
        cases k with
        | zero => simpa using hb
        | succ k => simp [getElem?_readRange hrest, Nat.add_assoc, Nat.add_comm 1 k]
      rw [hdata, hrest, hsame]
      rfl
    · have hwhole : ¬ Fits a (len + 1) := fun h => hfit ((fits_succ_iff a len).mp h).2
      rw [m.readRange_of_not_fits hfit, m.readRange_of_not_fits hwhole, firstOutside_of_lt ha]
      rfl
  · have hle : size ≤ a := Nat.le_of_not_lt ha
    have hwhole : ¬ Fits a (len + 1) := fun h => ha ((fits_succ_iff a len).mp h).1
    rw [m.read_of_size_le hle, m.readRange_of_not_fits hwhole, firstOutside_of_size_le hle]
    rfl

/-- Reading a range is reading its bytes in order, up to the first failure. -/
theorem readRange_eq_mapM (m : Memory) (a len : Nat) :
    m.readRange a len = (List.range' a len).mapM m.read := by
  induction len generalizing a with
  | zero => rfl
  | succ len ih => rw [readRange_succ, List.range'_succ, List.mapM_cons, ih]

theorem write_of_lt (m : Memory) {a : Nat} (h : a < size) (b : UInt8) :
    m.write a b = .ok (m.put a [b]) :=
  if_pos h

theorem write_of_size_le (m : Memory) {a : Nat} (h : size ≤ a) (b : UInt8) :
    m.write a b = .error (.addressOutOfRange a) :=
  if_neg (Nat.not_lt_of_le h)

theorem writeRange_eq_put (m : Memory) {a : Nat} {data : List UInt8} (h : Fits a data.length) :
    m.writeRange a data = .ok (m.put a data) := by
  cases data with
  | nil => rfl
  | cons b rest => exact if_pos (h.resolve_left (Nat.succ_ne_zero _))

theorem writeRange_of_not_fits (m : Memory) {a : Nat} {data : List UInt8}
    (h : ¬ Fits a data.length) :
    m.writeRange a data = .error (.addressOutOfRange (firstOutside a)) := by
  refine (m.writeRange_eq_error_iff a data _).mpr ⟨fun hd => ?_, ?_, rfl⟩
  · exact h (Or.inl (congrArg List.length hd))
  · exact Nat.lt_of_not_le fun hle => h (Or.inr hle)

/-- Writing byte by byte goes through if all addresses are within memory. -/
theorem writeEach_of_fits (m : Memory) {a : Nat} {data : List UInt8} (h : Fits a data.length) :
    m.writeEach a data = .ok () (m.put a data) := by
  induction data generalizing m a with
  | nil => rfl
  | cons b rest ih =>
    obtain ⟨ha, hrest⟩ := (fits_succ_iff a rest.length).mp h
    rw [writeEach, m.write_of_lt ha]
    exact ih _ hrest

/-- Otherwise it ends at the first address outside memory, with all bytes before it written. -/
theorem writeEach_of_not_fits (m : Memory) {a : Nat} {data : List UInt8}
    (h : ¬ Fits a data.length) :
    m.writeEach a data = .error (.addressOutOfRange (firstOutside a)) (m.put a data) := by
  induction data generalizing m a with
  | nil => exact absurd (Or.inl rfl) h
  | cons b rest ih =>
    by_cases ha : a < size
    · have hrest : ¬ Fits (a + 1) rest.length := fun hfit =>
        h ((fits_succ_iff a rest.length).mpr ⟨ha, hfit⟩)
      rw [writeEach, m.write_of_lt ha, firstOutside_of_lt ha]
      exact ih _ hrest
    · have hle : size ≤ a := Nat.le_of_not_lt ha
      -- all of the data falls beyond the top
      have hput : m.put a (b :: rest) = m := eq_of_byte? fun c => by
        rw [byte?_put, if_neg fun hc => ha (Nat.lt_of_le_of_lt hc.1 hc.2.2)]
      rw [writeEach, m.write_of_size_le hle, firstOutside_of_size_le hle, hput]

/-- Writing a range is writing its bytes in order, or nothing if one of them fails. -/
theorem writeRange_eq_writeEach (m : Memory) (a : Nat) (data : List UInt8) :
    m.writeRange a data = allOrNothing (m.writeEach a data) := by
  by_cases h : Fits a data.length
  · rw [m.writeRange_eq_put h, m.writeEach_of_fits h]
    rfl
  · rw [m.writeRange_of_not_fits h, m.writeEach_of_not_fits h]
    rfl

/-- An instruction that writes a range does what writing its bytes in order does. If one of them
fails it has the same fault, and it leaves everything as it was. -/
theorem run_writeAtIndex_eq_writeEach {σ : Type} (w : Workspace σ) (data : List UInt8) :
    (Work.writeAtIndex data).run w = w.settle ((allOrNothing
      (w.state.memory.writeEach w.state.registers.index.toNat data)).map
        fun memory => { w.state with memory }) := by
  rw [Work.run_writeAtIndex, writeRange_eq_writeEach]

/-- The accesses to ranges agree with those to single bytes. Reading a range gives what reading its
bytes in order gives, up to the first failure, whose fault it has. Writing a range gives the memory
that writing its bytes in order gives if all of these succeed; else it has the fault of the first
that fails, and an instruction that writes leaves every byte, and all else, as it was. An empty
range can be read and written anywhere, which changes nothing. -/
theorem ranges_agree_with_bytes (m : Memory) (a : Nat) :
    (∀ len, m.readRange a len = (List.range' a len).mapM m.read) ∧
    (∀ data n, m.writeEach a data = .ok () n → m.writeRange a data = .ok n) ∧
    (∀ data f n, m.writeEach a data = .error f n → m.writeRange a data = .error f) ∧
    (∀ {σ : Type} (w : Workspace σ) (data : List UInt8) (n : Memory),
      w.state.memory.writeEach w.state.registers.index.toNat data = .ok () n →
        (Work.writeAtIndex data).run w =
          .ok .done { w with state := { w.state with memory := n } }) ∧
    (∀ {σ : Type} (w : Workspace σ) (data : List UInt8) (f : Fault) (n : Memory),
      w.state.memory.writeEach w.state.registers.index.toNat data = .error f n →
        (Work.writeAtIndex data).run w = .error f w) ∧
    m.readRange a 0 = .ok [] ∧ m.writeRange a [] = .ok m := by
  refine ⟨m.readRange_eq_mapM a, fun data n h => ?_, fun data f n h => ?_, fun w data n h => ?_,
    fun w data f n h => ?_, rfl, rfl⟩
  · rw [writeRange_eq_writeEach, h]
    rfl
  · rw [writeRange_eq_writeEach, h]
    rfl
  · rw [run_writeAtIndex_eq_writeEach, h]
    rfl
  · rw [run_writeAtIndex_eq_writeEach, h]
    rfl

end Memory

end Chip8
