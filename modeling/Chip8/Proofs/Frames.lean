import Chip8.Proofs.Countdown
import Chip8.Proofs.Determinism
import Chip8.Proofs.FlagArithmetic
import Chip8.Proofs.HeldKeys

/-!
What a cycle leaves alone. The opcode under the program counter names all that can change besides
the program counter (`Machine.changes_of_cycle`), and an opcode that stands for no instruction names
nothing.
-/

namespace Chip8

/-- The result of the operation comes with a flag. -/
def Arithmetic.flags : Arithmetic → Bool
  | .add | .sub | .subFrom => true
  | _ => false

theorem RegisterFile.get_combine_of_ne (r : RegisterFile) {op : Arithmetic} {x y z : Nibble}
    (hx : z ≠ x) (hf : op.flags = true → z ≠ 0xF) : (r.combine op x y).get z = r.get z := by
  cases op with
  | add => exact (r.stores_add x y).others z hx (hf rfl)
  | sub => exact (r.stores_sub x y).others z hx (hf rfl)
  | subFrom => exact (r.stores_subFrom x y).others z hx (hf rfl)
  | _ => exact r.get_set_of_ne hx _

namespace Instruction

/-- The instruction writes to register `z`, with the keys held as given. -/
def Alters (k : Keypad) (z : Nibble) : Instruction → Prop
  | .setByte x _ | .addByte x _ | .random x _ | .getDelay x => z = x
  | .combine op x _ => z = x ∨ op.flags = true ∧ z = 0xF
  | .shiftRight x | .shiftLeft x => z = x ∨ z = 0xF
  | .draw _ _ _ => z = 0xF
  | .awaitKey x => z = x ∧ k.heldKeys ≠ []
  | .restore x => z < x
  | _ => False

/-- The instructions that write to the index. -/
def movesIndex : Instruction → Bool
  | .setIndex _ | .addIndex _ | .glyph _ => true
  | _ => false

end Instruction

namespace State

variable {s t : State} {b : UInt8} {i : Instruction} {e : Ending} {z : Nibble}

theorem Executes.get_eq (h : s.Executes b i e t) (hz : ¬ i.Alters s.keypad z) :
    t.registers.get z = s.registers.get z := by
  cases h with
  | setByte x kk => exact s.registers.get_set_of_ne hz _
  | addByte x kk => exact s.registers.get_set_of_ne hz _
  | combine op x y =>
    obtain ⟨hx, hf⟩ := not_or.mp hz
    exact s.registers.get_combine_of_ne hx fun hop he => hf ⟨hop, he⟩
  | shiftRight x =>
    obtain ⟨hx, hf⟩ := not_or.mp hz
    exact (s.registers.stores_shiftRight x).others z hx hf
  | shiftLeft x =>
    obtain ⟨hx, hf⟩ := not_or.mp hz
    exact (s.registers.stores_shiftLeft x).others z hx hf
  | random x kk => exact s.registers.get_set_of_ne hz _
  | draw x y height hs => exact s.registers.get_set_of_ne hz _
  | getDelay x => exact s.registers.get_set_of_ne hz _
  | takeKey x hk =>
    refine s.registers.get_set_of_ne (fun hx => hz ⟨hx, fun hnone => ?_⟩) _
    rw [(Keypad.lowest?_eq_none_iff _).mpr hnone] at hk
    cases hk
  | @restore x data hd =>
    have hlen := Memory.length_readRange hd
    have hout : data[z.val]? = none :=
      List.getElem?_eq_none (by rw [hlen]; exact Nat.le_of_not_lt hz)
    change (s.registers.setFirst data).get z = _
    rw [RegisterFile.get_setFirst, hout]
    rfl
  | _ => rfl

theorem Executes.index_eq (h : s.Executes b i e t) (hi : i.movesIndex = false) :
    t.registers.index = s.registers.index := by
  cases h with
  | setIndex | addIndex | glyph => cases hi
  | combine => exact RegisterFile.index_combine ..
  | restore => exact RegisterFile.index_setFirst ..
  | _ => rfl

/-- The opcode at the program counter is one that may change register `z`. -/
inductive MayChange (s : State) : Nibble → Prop where
  | setByte (x k l) : s.Meets 6 x k l → s.MayChange x
  | addByte (x k l) : s.Meets 7 x k l → s.MayChange x
  | result (x y n) : s.Meets 8 x y n → n.val ≤ 7 ∨ n = 0xE → s.MayChange x
  | flag (x y n) : s.Meets 8 x y n → 4 ≤ n.val ∧ n.val ≤ 7 ∨ n = 0xE → s.MayChange 0xF
  | random (x k l) : s.Meets 0xC x k l → s.MayChange x
  | draw (x y n) : s.Meets 0xD x y n → s.MayChange 0xF
  | getDelay (x) : s.Meets 0xF x 0 7 → s.MayChange x
  | takeKey (x) : s.Meets 0xF x 0 0xA → s.keypad.heldKeys ≠ [] → s.MayChange x
  | restore (x z) : s.Meets 0xF x 6 5 → z < x → s.MayChange z

theorem mayChange_of_alters {op : Opcode} (hop : s.fetch = .ok op)
    (h : (Instruction.decode op).Alters s.keypad z) : s.MayChange z := by
  rcases table_or_unknown_of_fetch hop with ⟨a, b, c, d, i, hm, ht, hi⟩ | hi
  · rw [hi] at h
    cases ht with
    | setByte =>
      cases h
      exact .setByte _ _ _ hm
    | addByte =>
      cases h
      exact .addByte _ _ _ hm
    | copy | or | and | xor =>
      rcases h with rfl | ⟨hf, -⟩
      · exact .result _ _ _ hm (by decide)
      · cases hf
    | add | sub | subFrom =>
      rcases h with rfl | ⟨-, rfl⟩
      · exact .result _ _ _ hm (by decide)
      · exact .flag _ _ _ hm (by decide)
    | shiftRight | shiftLeft =>
      rcases h with rfl | rfl
      · exact .result _ _ _ hm (by decide)
      · exact .flag _ _ _ hm (by decide)
    | random =>
      cases h
      exact .random _ _ _ hm
    | draw =>
      cases h
      exact .draw _ _ _ hm
    | getDelay =>
      cases h
      exact .getDelay _ hm
    | awaitKey =>
      obtain ⟨rfl, hk⟩ := h
      exact .takeKey _ hm hk
    | restore => exact .restore _ _ hm h
    | _ => exact False.elim h
  · rw [hi] at h
    exact False.elim h

theorem meets_of_movesIndex {op : Opcode} (hop : s.fetch = .ok op)
    (h : (Instruction.decode op).movesIndex = true) :
    ∃ a b c, s.Meets 0xA a b c ∨ s.Meets 0xF a 1 0xE ∨ s.Meets 0xF a 2 9 := by
  rcases table_or_unknown_of_fetch hop with ⟨a, b, c, d, i, hm, ht, hi⟩ | hi
  · rw [hi] at h
    cases ht with
    | setIndex => exact ⟨b, c, d, Or.inl hm⟩
    | addIndex => exact ⟨b, 0, 0, Or.inr (Or.inl hm)⟩
    | glyph => exact ⟨b, 0, 0, Or.inr (Or.inr hm)⟩
    | _ => cases h
  · rw [hi] at h
    cases h

theorem meets_of_usesCalls {op : Opcode} (hop : s.fetch = .ok op)
    (h : (Instruction.decode op).usesCalls = true) :
    s.Meets 0 0 0xE 0xE ∨ ∃ a b c, s.Meets 2 a b c := by
  rcases table_or_unknown_of_fetch hop with ⟨a, b, c, d, i, hm, ht, hi⟩ | hi
  · rw [hi] at h
    cases ht with
    | ret => exact Or.inl hm
    | call => exact Or.inr ⟨b, c, d, hm⟩
    | _ => cases h
  · rw [hi] at h
    cases h

end State

namespace Machine

variable {σ : Type} [ByteSource σ] {m : Machine σ}

theorem mayChange_of_get_ne (hok : m.cycle.answer.isOk = true) {z : Nibble}
    (h : m.cycle.machine.state.registers.get z ≠ m.state.registers.get z) :
    m.state.MayChange z := by
  obtain ⟨op, e, t, hop, hx, hs⟩ := executes_of_isOk hok
  refine State.mayChange_of_alters hop (Classical.byContradiction fun hz => h ?_)
  rw [hs]
  exact hx.get_eq hz

theorem meets_of_index_ne (hok : m.cycle.answer.isOk = true)
    (h : m.cycle.machine.state.registers.index ≠ m.state.registers.index) :
    ∃ a b c, m.state.Meets 0xA a b c ∨ m.state.Meets 0xF a 1 0xE ∨ m.state.Meets 0xF a 2 9 := by
  obtain ⟨op, e, t, hop, hx, hs⟩ := executes_of_isOk hok
  refine State.meets_of_movesIndex hop (eq_true_of_ne_false fun hi => h ?_)
  rw [hs]
  exact hx.index_eq hi

theorem meets_of_calls_ne (hok : m.cycle.answer.isOk = true)
    (h : m.cycle.machine.state.registers.calls ≠ m.state.registers.calls) :
    m.state.Meets 0 0 0xE 0xE ∨ ∃ a b c, m.state.Meets 2 a b c := by
  obtain ⟨op, e, t, hop, hx, hs⟩ := executes_of_isOk hok
  refine State.meets_of_usesCalls hop (eq_true_of_ne_false fun hi => h ?_)
  rw [hs]
  exact hx.leads.calls_eq hi

theorem slots_of_ret (hok : m.cycle.answer.isOk = true) (h : m.state.Meets 0 0 0xE 0xE) :
    m.cycle.machine.state.registers.calls.slots = m.state.registers.calls.slots := by
  obtain ⟨e, t, hx, hs⟩ := executes_of_table hok h .ret
  rw [hs]
  exact CallStack.slots_pop hx.leads

theorem slot_of_call (hok : m.cycle.answer.isOk = true) {a b c : Nibble}
    (h : m.state.Meets 2 a b c) {k : Nat}
    (hk : m.cycle.machine.state.registers.calls.slots[k]? ≠ m.state.registers.calls.slots[k]?) :
    k = m.state.registers.calls.depth.val + 1 := by
  obtain ⟨e, t, hx, hs⟩ := executes_of_table hok h (.call a b c)
  refine Decidable.byContradiction fun hne => hk ?_
  rw [hs]
  exact CallStack.getElem?_slots_push hx.leads.1 hne

theorem meets_of_timer_ne (hok : m.cycle.answer.isOk = true) {k : Timer}
    (h : m.cycle.machine.state.timers.read k ≠ Timers.countDown (m.state.timers.read k)) :
    ∃ x, m.state.Meets 0xF x 1 k.digit := by
  obtain ⟨r, hr⟩ := ok_of_isOk hok
  obtain ⟨t, ht, -, hread⟩ := timers_of_ok hr
  refine Classical.byContradiction fun hne => h ?_
  have hsame := (hread k).2 fun b ⟨x, hx, _⟩ => hne ⟨x, hx⟩
  rw [ht, ← hsame]
  exact t.read_tick k

/-- A cycle that meets an opcode which stands for no instruction passes over it. -/
theorem cycle_of_unknown {a b c d : Nibble} (hm : m.fault = none) (h : m.state.Meets a b c d)
    (hu : ∀ i, ¬ Instruction.Table a b c d i) :
    m.cycle.answer.isOk = true ∧ m.cycle.machine = m.setState m.state.advance.tick := by
  have hop := (m.state.meets_iff_fetch ..).mp h
  have hnone := Instruction.table_or_unknown (.ofDigits a b c d)
  simp only [Opcode.kind_ofDigits, Opcode.x_ofDigits, Opcode.y_ofDigits, Opcode.n_ofDigits] at hnone
  have hi := hnone.resolve_left (hu _)
  have hx : m.state.advance.Executes (ByteSource.next m.source).1
      (.decode (.ofDigits a b c d)) .done m.state.advance := by
    rw [hi]
    exact .unknown _
  rw [cycle_of_executes hm hop hx, hi]
  exact ⟨rfl, by rw [setState, hm]; rfl⟩

/-- What a cycle of a machine that has not halted can change. If it succeeds, a register that has
changed is one that its opcode names or the flag, or one before that; only three opcodes move the
index and two the call stack, of which a return leaves all slots as they are and a call writes to
one; and the timers count down unless they are set. An opcode that is not in the table changes the
program counter, the redraw flag and the timers and nothing else. -/
theorem changes_of_cycle (hm : m.fault = none) :
    (m.cycle.answer.isOk = true →
      (∀ z, m.cycle.machine.state.registers.get z ≠ m.state.registers.get z →
        m.state.MayChange z) ∧
      (m.cycle.machine.state.registers.index ≠ m.state.registers.index →
        ∃ a b c, m.state.Meets 0xA a b c ∨ m.state.Meets 0xF a 1 0xE ∨ m.state.Meets 0xF a 2 9) ∧
      (m.cycle.machine.state.registers.calls ≠ m.state.registers.calls →
        m.state.Meets 0 0 0xE 0xE ∨ ∃ a b c, m.state.Meets 2 a b c) ∧
      (m.state.Meets 0 0 0xE 0xE →
        m.cycle.machine.state.registers.calls.slots = m.state.registers.calls.slots) ∧
      (∀ a b c, m.state.Meets 2 a b c → ∀ k,
        m.cycle.machine.state.registers.calls.slots[k]? ≠ m.state.registers.calls.slots[k]? →
        k = m.state.registers.calls.depth.val + 1) ∧
      (m.cycle.machine.state.timers.delay ≠ Timers.countDown m.state.timers.delay →
        ∃ x, m.state.Meets 0xF x 1 5) ∧
      (m.cycle.machine.state.timers.sound ≠ Timers.countDown m.state.timers.sound →
        ∃ x, m.state.Meets 0xF x 1 8)) ∧
    (∀ a b c d, m.state.Meets a b c d → (∀ i, ¬ Instruction.Table a b c d i) →
      m.cycle.answer.isOk = true ∧
      m.cycle.machine = m.setState
        { m.state with
          registers.counter := m.state.registers.counter + 2
          screen.redraw := false
          timers := m.state.timers.tick } ∧
      m.cycle.machine.state.registers.counter.toNat = m.state.registers.counter.toNat + 2) := by
  refine ⟨fun hok => ⟨fun z => mayChange_of_get_ne hok, meets_of_index_ne hok,
    meets_of_calls_ne hok, slots_of_ret hok, fun a b c h k => slot_of_call hok h,
    meets_of_timer_ne (k := .delay) hok, meets_of_timer_ne (k := .sound) hok⟩,
    fun a b c d h hu => ?_⟩
  obtain ⟨hok, hc⟩ := cycle_of_unknown hm h hu
  refine ⟨hok, hc, ?_⟩
  rw [hc]
  exact State.toNat_counter_advance ((m.state.meets_iff_fetch ..).mp h)

/-- An opcode of the arithmetic family that stands for no operation is passed over. -/
theorem changes_of_cycle_passing :
    (loaded [0x81, 0x28]).fault = none ∧ (loaded [0x81, 0x28]).cycle.answer.isOk = true ∧
    (loaded [0x81, 0x28]).cycle.machine = (loaded [0x81, 0x28]).setState
      { (loaded [0x81, 0x28]).state with
        registers.counter := (loaded [0x81, 0x28]).state.registers.counter + 2
        screen.redraw := false
        timers := (loaded [0x81, 0x28]).state.timers.tick } := by
  have h : (loaded [0x81, 0x28]).state.Meets 8 1 2 8 := meets_loaded 8 1 2 8 (Nat.zero_le _)
  have hu (i : Instruction) : ¬ Instruction.Table 8 1 2 8 i := by
    intro ht
    cases ht
  obtain ⟨hok, hc, -⟩ := (changes_of_cycle rfl).2 8 1 2 8 h hu
  exact ⟨rfl, hok, hc⟩

end Machine

end Chip8
