import Chip8.Proofs.ControlFlow
import Chip8.Proofs.Decoding

/-!
When a cycle faults and what the fault leaves behind. The opcode under the program counter and the
registers tell in advance whether a cycle will fault (`State.Faults`). A fault in the fetch changes
nothing; any other is met with the program counter already moved on and the redraw flag down, and
with nothing else changed.
-/

namespace Chip8

namespace State

/-- The opcode at the program counter has the digits given. -/
def Meets (s : State) (a b c d : Nibble) : Prop :=
  s.memory.byte? s.registers.counter.toNat = some (byteOfDigits a b) ∧
    s.memory.byte? (s.registers.counter.toNat + 1) = some (byteOfDigits c d)

theorem meets_iff_fetch (s : State) (a b c d : Nibble) :
    s.Meets a b c d ↔ s.fetch = .ok (.ofDigits a b c d) := by
  rw [fetch_eq_ok_iff]
  constructor
  · rintro ⟨hh, hl⟩
    exact ⟨_, _, hh, hl, (Opcode.ofBytes_byteOfDigits a b c d).symm⟩
  · rintro ⟨high, low, hh, hl, he⟩
    have hw := congrArg (fun op => op.word.toNat) he
    have hlow := low.toNat_lt
    simp only [Opcode.toNat_ofDigits, Opcode.toNat_ofBytes] at hw
    have h1 : high = byteOfDigits a b :=
      UInt8.toNat_inj.mp (by rw [toNat_byteOfDigits]; omega)
    have h2 : low = byteOfDigits c d :=
      UInt8.toNat_inj.mp (by rw [toNat_byteOfDigits]; omega)
    exact ⟨h1 ▸ hh, h2 ▸ hl⟩

theorem meets_of_fetch {s : State} {op : Opcode} (h : s.fetch = .ok op) :
    s.Meets op.kind op.x op.y op.n :=
  (s.meets_iff_fetch ..).mpr (h.trans (congrArg _ op.ofDigits_digits.symm))

/-- An opcode that was fetched stands for an instruction in the table, or for none. -/
theorem table_or_unknown_of_fetch {s : State} {op : Opcode} (h : s.fetch = .ok op) :
    (∃ a b c d i, s.Meets a b c d ∧ Instruction.Table a b c d i ∧ Instruction.decode op = i) ∨
      Instruction.decode op = .unknown op := by
  rcases Instruction.table_or_unknown op with ht | hu
  · exact Or.inl ⟨_, _, _, _, _, meets_of_fetch h, ht, rfl⟩
  · exact Or.inr hu

/-- An instruction that no other digits stand for is met where the decoder finds it. -/
theorem meets_iff_decode {s : State} {op : Opcode} {a b c d : Nibble} {i : Instruction}
    (hop : s.fetch = .ok op) (ht : Instruction.Table a b c d i)
    (hu : ∀ {a' b' c' d'}, Instruction.Table a' b' c' d' i →
      (a', b', c', d') = (a, b, c, d)) :
    s.Meets a b c d ↔ .decode op = i := by
  constructor
  · intro h
    cases hop.symm.trans ((s.meets_iff_fetch ..).mp h)
    exact Instruction.decode_of_table ht
  · intro h
    cases hu (Instruction.table_iff.mpr ⟨h, ht.ne_unknown op⟩)
    exact meets_of_fetch hop

/-- The faults of a cycle in state `s`. -/
inductive Faults (s : State) : Fault → Prop where
  | counter : 0xFFE < s.registers.counter.toNat →
      s.Faults (.counterOutOfRange s.registers.counter)
  | underflow : s.Meets 0 0 0xE 0xE → s.registers.calls.depth = 0 → s.Faults .stackUnderflow
  | overflow (a b c) : s.Meets 2 a b c → s.registers.calls.depth = 15 → s.Faults .stackOverflow
  | sprite (x y n) : s.Meets 0xD x y n → 0 < n.val →
      0x1000 < s.registers.index.toNat + n.val →
      s.Faults (.addressOutOfRange (max s.registers.index.toNat 0x1000))
  | digits (x) : s.Meets 0xF x 3 3 → 0x1000 < s.registers.index.toNat + 3 →
      s.Faults (.addressOutOfRange (max s.registers.index.toNat 0x1000))
  | save (x) : s.Meets 0xF x 5 5 → 0 < x.val → 0x1000 < s.registers.index.toNat + x.val →
      s.Faults (.addressOutOfRange (max s.registers.index.toNat 0x1000))
  | restore (x) : s.Meets 0xF x 6 5 → 0 < x.val → 0x1000 < s.registers.index.toNat + x.val →
      s.Faults (.addressOutOfRange (max s.registers.index.toNat 0x1000))
  | keyHeld (x) : s.Meets 0xE x 9 0xE → 15 < (s.registers.get x).toNat →
      s.Faults (.keyOutOfRange (s.registers.get x))
  | keyFree (x) : s.Meets 0xE x 0xA 1 → 15 < (s.registers.get x).toNat →
      s.Faults (.keyOutOfRange (s.registers.get x))

/-- An instruction in the table that is refused belongs to one of the cases. -/
theorem faults_of_refuses {s : State} {f : Fault} {a b c d : Nibble} {i : Instruction}
    (h : s.Meets a b c d) (ht : Instruction.Table a b c d i) (hr : s.advance.Refuses f i) :
    s.Faults f := by
  cases ht with
  | ret =>
    obtain ⟨hd, rfl⟩ := hr
    exact .underflow h hd
  | call =>
    obtain ⟨hd, rfl⟩ := hr
    exact .overflow _ _ _ h hd
  | draw =>
    obtain ⟨hn, hi, rfl⟩ := hr
    exact .sprite _ _ _ h hn hi
  | digits =>
    obtain ⟨-, hi, rfl⟩ := hr
    exact .digits _ h hi
  | save =>
    obtain ⟨hx, hi, rfl⟩ := hr
    exact .save _ h hx hi
  | restore =>
    obtain ⟨hx, hi, rfl⟩ := hr
    exact .restore _ h hx hi
  | keyHeld =>
    obtain ⟨hk, rfl⟩ := hr
    exact .keyHeld _ h hk
  | keyFree =>
    obtain ⟨hk, rfl⟩ := hr
    exact .keyFree _ h hk
  | _ => exact False.elim hr

theorem refuses_of_table {s : State} {f : Fault} {a b c d : Nibble} {i : Instruction}
    (h : s.Meets a b c d) (ht : Instruction.Table a b c d i) (hr : s.advance.Refuses f i) :
    ∃ op, s.fetch = .ok op ∧ s.advance.Refuses f (.decode op) :=
  ⟨_, (s.meets_iff_fetch ..).mp h, by rwa [Instruction.decode_of_table ht]⟩

theorem faults_iff (s : State) (f : Fault) :
    s.Faults f ↔ s.fetch = .error f ∨
      ∃ op, s.fetch = .ok op ∧ s.advance.Refuses f (.decode op) := by
  constructor
  · intro h
    cases h with
    | counter hc => exact Or.inl ((s.fetch_eq_error_iff _).mpr ⟨hc, rfl⟩)
    | underflow h hd => exact Or.inr (refuses_of_table h .ret ⟨hd, rfl⟩)
    | overflow a b c h hd => exact Or.inr (refuses_of_table h (.call a b c) ⟨hd, rfl⟩)
    | sprite x y n h hn hi => exact Or.inr (refuses_of_table h (.draw x y n) ⟨hn, hi, rfl⟩)
    | digits x h hi => exact Or.inr (refuses_of_table h (.digits x) ⟨by decide, hi, rfl⟩)
    | save x h hx hi => exact Or.inr (refuses_of_table h (.save x) ⟨hx, hi, rfl⟩)
    | restore x h hx hi => exact Or.inr (refuses_of_table h (.restore x) ⟨hx, hi, rfl⟩)
    | keyHeld x h hk => exact Or.inr (refuses_of_table h (.keyHeld x) ⟨hk, rfl⟩)
    | keyFree x h hk => exact Or.inr (refuses_of_table h (.keyFree x) ⟨hk, rfl⟩)
  · rintro (h | ⟨op, h, hr⟩)
    · obtain ⟨hc, rfl⟩ := (s.fetch_eq_error_iff f).mp h
      exact .counter hc
    · rcases Instruction.table_or_unknown op with ht | hu
      · exact faults_of_refuses (meets_of_fetch h) ht hr
      · rw [hu] at hr
        exact False.elim hr

theorem not_refuses_counterOutOfRange (s : State) (a : UInt16) (i : Instruction) :
    ¬ s.Refuses (.counterOutOfRange a) i := by
  intro h
  cases i with
  | skipIf c => cases c <;> first | cases h.2 | exact h
  | ret => cases h.2
  | call target => cases h.2
  | draw x y height => cases h.2.2
  | digits x => cases h.2.2
  | save x => cases h.2.2
  | restore x => cases h.2.2
  | _ => exact h

end State

namespace Machine

variable {σ : Type} [ByteSource σ] {m : Machine σ}

/-- A cycle that faults leaves the state alone, if the fault is in the fetch, or else changes only
the program counter, which has passed the opcode, and the redraw flag. -/
theorem halting_cycle_frame {f : Fault} (hm : m.fault = none) (hf : m.cycle.answer = .error f) :
    ((∃ a, f = .counterOutOfRange a) → m.cycle.machine.state = m.state) ∧
    ((∀ a, f ≠ .counterOutOfRange a) →
      m.cycle.machine.state =
        { m.state with
          registers.counter := m.state.registers.counter + 2
          screen.redraw := false } ∧
      m.cycle.machine.state.registers.counter.toNat = m.state.registers.counter.toNat + 2) ∧
    m.cycle.machine.state.registers.v = m.state.registers.v ∧
    m.cycle.machine.state.registers.index = m.state.registers.index ∧
    m.cycle.machine.state.registers.calls = m.state.registers.calls ∧
    m.cycle.machine.state.memory = m.state.memory ∧
    m.cycle.machine.state.screen.rows = m.state.screen.rows ∧
    m.cycle.machine.state.timers = m.state.timers ∧
    m.cycle.machine.state.keypad = m.state.keypad ∧
    m.cycle.machine.source = m.source ∧
    m.cycle.machine.fault = some f := by
  rcases halting_cases hm hf with ⟨h, hc⟩ | ⟨op, h, hr, hc⟩
  · rw [hc]
    have he := State.eq_of_fetch_eq_error h
    exact ⟨fun _ => rfl, fun hne => absurd he (hne _), rfl, rfl, rfl, rfl, rfl, rfl, rfl, rfl, rfl⟩
  · rw [hc]
    refine ⟨?_, fun _ => ⟨rfl, State.toNat_counter_advance h⟩, rfl, rfl, rfl, rfl, rfl, rfl, rfl,
      rfl, rfl⟩
    rintro ⟨a, rfl⟩
    exact absurd hr (State.not_refuses_counterOutOfRange _ a _)

theorem answer_eq_error_iff_faults (hm : m.fault = none) (f : Fault) :
    m.cycle.answer = .error f ↔ m.state.Faults f :=
  (answer_eq_error_iff hm f).trans (m.state.faults_iff f).symm

theorem state_loaded {program : List UInt8} (h : program.length ≤ 3584) :
    (loaded program).state =
      { State.initial with memory := Memory.initial.put programStart program } := by
  have hl : (new (⟨[]⟩ : Scripted)).state.memory.load program =
      .ok (Memory.initial.put programStart program) := if_pos h
  simp only [loaded, load, hl]
  rfl

/-- A machine starts with the first opcode of its program. -/
theorem meets_loaded (a b c d : Nibble) {rest : List UInt8} (h : rest.length ≤ 3582) :
    (loaded (byteOfDigits a b :: byteOfDigits c d :: rest)).state.Meets a b c d := by
  have hlen : (byteOfDigits a b :: byteOfDigits c d :: rest).length = rest.length + 2 := rfl
  have hfit : programStart + (byteOfDigits a b :: byteOfDigits c d :: rest).length ≤ 0x1000 := by
    rw [hlen, programStart]
    omega
  have hcounter : State.initial.registers.counter.toNat = programStart := rfl
  rw [state_loaded (by omega)]
  simp only [State.Meets, hcounter]
  exact ⟨Memory.byte?_put_of_lt Memory.initial (k := 0) hfit (by omega),
    Memory.byte?_put_of_lt Memory.initial (k := 1) hfit (by omega)⟩

/-- A program that returns first of all. -/
theorem meets_return : (loaded [0x00, 0xEE]).state.Meets 0 0 0xE 0xE :=
  meets_loaded 0 0 0xE 0xE (Nat.zero_le _)

/-- A return with no call in progress halts the machine just past the opcode. -/
theorem halting_cycle_frame_return :
    (loaded [0x00, 0xEE]).cycle.answer = .error .stackUnderflow ∧
    (loaded [0x00, 0xEE]).cycle.machine.state =
      { (loaded [0x00, 0xEE]).state with
        registers.counter := (loaded [0x00, 0xEE]).state.registers.counter + 2
        screen.redraw := false } := by
  have hf := (answer_eq_error_iff_faults rfl _).mpr (.underflow meets_return rfl)
  exact ⟨hf, ((halting_cycle_frame rfl hf).2.1 nofun).1⟩

theorem exists_ok_iff : (∃ r, m.cycle.answer = .ok r) ↔ ∀ f, m.cycle.answer ≠ .error f := by
  cases m.cycle.answer with
  | ok r => exact ⟨fun _ => nofun, fun _ => ⟨r, rfl⟩⟩
  | error f => exact ⟨nofun, fun h => absurd rfl (h f)⟩

theorem succeeds_of_table {a b c d : Nibble} {i : Instruction} (hm : m.fault = none)
    (h : m.state.Meets a b c d) (ht : Instruction.Table a b c d i)
    (hr : ∀ f, ¬ m.state.advance.Refuses f i) : ∃ r, m.cycle.answer = .ok r := by
  refine exists_ok_iff.mpr fun f hf => ?_
  have hop := (m.state.meets_iff_fetch ..).mp h
  rcases (answer_eq_error_iff hm f).mp hf with he | ⟨op, hop', hr'⟩
  · cases he.symm.trans hop
  · cases hop'.symm.trans hop
    rw [Instruction.decode_of_table ht] at hr'
    exact hr f hr'

/-- A cycle that executes the instruction which stands in the table for the digits it meets. -/
theorem cycle_of_table {a b c d : Nibble} {i : Instruction} {ending : Ending} {w : Workspace σ}
    (hm : m.fault = none) (h : m.state.Meets a b c d) (ht : Instruction.Table a b c d i)
    (hx : (Work.execute i).run (m.workspace (.ofDigits a b c d)) = .ok ending w) :
    m.cycle = ⟨⟨w.state.tick, w.source, none⟩,
      .ok ⟨ending = .awaitingKey, w.state.timers.beeps⟩,
      w.notices ++ if w.state.timers.beeps then [.beep] else []⟩ := by
  refine cycle_of_executed hm ((m.state.meets_iff_fetch ..).mp h) ?_
  rw [Instruction.decode_of_table ht, hx]

/-- A cycle that succeeds keeps to the rule for the instruction that it fetches. -/
theorem executes_of_isOk (hok : m.cycle.answer.isOk = true) :
    ∃ op e t, m.state.fetch = .ok op ∧
      m.state.advance.Executes (ByteSource.next m.source).1 (.decode op) e t ∧
      m.cycle.machine.state = t.tick := by
  obtain ⟨op, ending, w, -, hop, hx, hc⟩ := cycle_of_isOk hok
  exact ⟨op, ending, w.state, hop, Work.executes_of_run_execute hx, by rw [hc]⟩

theorem executes_of_table {a b c d : Nibble} {i : Instruction} (hok : m.cycle.answer.isOk = true)
    (h : m.state.Meets a b c d) (ht : Instruction.Table a b c d i) :
    ∃ e t, m.state.advance.Executes (ByteSource.next m.source).1 i e t ∧
      m.cycle.machine.state = t.tick := by
  obtain ⟨op, e, t, hop, hx, hs⟩ := executes_of_isOk hok
  cases hop.symm.trans ((m.state.meets_iff_fetch ..).mp h)
  rw [Instruction.decode_of_table ht] at hx
  exact ⟨e, t, hx, hs⟩

/-- A cycle of a machine that has not halted faults in the cases of `State.Faults` and in no others.
A transfer of no bytes succeeds wherever the index is, and so does what only moves the index or the
program counter, even out of memory. -/
theorem cycle_faults_iff (hm : m.fault = none) :
    (∀ f, m.cycle.answer = .error f ↔ m.state.Faults f) ∧
    ((∃ r, m.cycle.answer = .ok r) ↔ ∀ f, ¬ m.state.Faults f) ∧
    (∀ x y, m.state.Meets 0xD x y 0 ∨ m.state.Meets 0xF 0 5 5 ∨ m.state.Meets 0xF 0 6 5 →
      ∃ r, m.cycle.answer = .ok r) ∧
    (∀ x y z, m.state.Meets 0xF x 1 0xE ∨ m.state.Meets 0xB x y z →
      ∃ r, m.cycle.answer = .ok r) ∧
    (∀ x y z, m.state.Meets 3 x y z ∨ m.state.Meets 4 x y z ∨
      m.state.Meets 5 x y 0 ∨ m.state.Meets 9 x y 0 ∨
      (m.state.registers.get x).toNat ≤ 15 ∧
        (m.state.Meets 0xE x 9 0xE ∨ m.state.Meets 0xE x 0xA 1) →
      ∃ r, m.cycle.answer = .ok r) := by
  refine ⟨answer_eq_error_iff_faults hm, ?_, ?_, ?_, ?_⟩
  · refine exists_ok_iff.trans (forall_congr' fun f => not_congr ?_)
    exact answer_eq_error_iff_faults hm f
  · rintro x y (h | h | h)
    · exact succeeds_of_table hm h (.draw x y 0) fun _ hr => absurd hr.1 (Nat.lt_irrefl 0)
    · exact succeeds_of_table hm h (.save 0) fun _ hr => absurd hr.1 (Nat.lt_irrefl 0)
    · exact succeeds_of_table hm h (.restore 0) fun _ hr => absurd hr.1 (Nat.lt_irrefl 0)
  · rintro x y z (h | h)
    · exact succeeds_of_table hm h (.addIndex x) fun _ hr => hr
    · exact succeeds_of_table hm h (.jumpFrom x y z) fun _ hr => hr
  · rintro x y z (h | h | h | h | ⟨hx, h | h⟩)
    · exact succeeds_of_table hm h (.isByte x y z) fun _ hr => hr
    · exact succeeds_of_table hm h (.isNotByte x y z) fun _ hr => hr
    · exact succeeds_of_table hm h (.same x y) fun _ hr => hr
    · exact succeeds_of_table hm h (.differ x y) fun _ hr => hr
    · exact succeeds_of_table hm h (.keyHeld x) fun _ hr => absurd hr.1 (Nat.not_lt_of_le hx)
    · exact succeeds_of_table hm h (.keyFree x) fun _ hr => absurd hr.1 (Nat.not_lt_of_le hx)

/-- A return with no call in progress underflows. -/
theorem cycle_faults_return :
    (loaded [0x00, 0xEE]).fault = none ∧
    (loaded [0x00, 0xEE]).cycle.answer = .error .stackUnderflow :=
  ⟨rfl, ((cycle_faults_iff rfl).1 _).mpr (.underflow meets_return rfl)⟩

end Machine

end Chip8
