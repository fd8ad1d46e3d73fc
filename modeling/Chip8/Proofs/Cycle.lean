import Chip8.Machine.Run
import Chip8.Proofs.Execution

/-!
The four ways a cycle can go (`cycle_cases`), and a principle for whole runs: what every event
preserves holds wherever a run from a machine with it can be (`run_induction`). Of the runs those
of nothing but cycles have a name of their own (`Machine.after`).
-/

namespace Chip8

namespace State

/-- What a load or a key event makes of a state. A load that fails leaves it as it is, and a cycle
is no business of the host. -/
def receive (s : State) : Event → State
  | .load program =>
    match s.memory.load program with
    | .ok memory => { s with memory }
    | .error _ => s
  | .loadFrom reader =>
    match s.memory.loadFrom reader with
    | .ok (_, memory) => { s with memory }
    | .error _ => s
  | .press key => { s with keypad := s.keypad.press key }
  | .release key => { s with keypad := s.keypad.release key }
  | .setKey key down => { s with keypad := s.keypad.set key down }
  | .cycle => s

theorem receive_cases (s : State) (e : Event) :
    ∃ memory keypad, s.receive e = { s with memory, keypad } := by
  cases e with
  | load program =>
    simp only [receive]
    split
    · exact ⟨_, _, rfl⟩
    · exact ⟨_, _, rfl⟩
  | loadFrom reader =>
    simp only [receive]
    split
    · exact ⟨_, _, rfl⟩
    · exact ⟨_, _, rfl⟩
  | press key => exact ⟨_, _, rfl⟩
  | release key => exact ⟨_, _, rfl⟩
  | setKey key down => exact ⟨_, _, rfl⟩
  | cycle => exact ⟨_, _, rfl⟩

end State

namespace Machine

variable {σ : Type}

/-- A new machine with a program in memory and a source of zeros. -/
def loaded (program : List UInt8) : Machine Scripted := ((new ⟨[]⟩).load program).machine

/-- What an instruction is executed on, `op` being its opcode. -/
def workspace (m : Machine σ) (op : Opcode) : Workspace σ :=
  ⟨m.state.advance, m.source, [.fetched op m.state.registers]⟩

theorem opcode?_eq_some_iff {m : Machine σ} {op : Opcode} :
    m.opcode? = some op ↔ m.fault = none ∧ m.state.fetch = .ok op := by
  unfold opcode?
  cases m.fault with
  | some f => exact ⟨nofun, nofun⟩
  | none =>
    cases m.state.fetch with
    | error f => exact ⟨nofun, nofun⟩
    | ok op' =>
      constructor
      · intro h
        cases h
        exact ⟨rfl, rfl⟩
      · rintro ⟨-, h⟩
        cases h
        rfl

theorem any_opcode?_iff {m : Machine σ} {p : Opcode → Bool} :
    m.opcode?.any p = true ↔ m.fault = none ∧ ∃ op, m.state.fetch = .ok op ∧ p op = true := by
  simp only [Option.any_eq_true, opcode?_eq_some_iff]
  constructor
  · rintro ⟨op, ⟨hm, h⟩, hp⟩
    exact ⟨hm, op, h, hp⟩
  · rintro ⟨hm, op, h, hp⟩
    exact ⟨op, ⟨hm, h⟩, hp⟩

variable [ByteSource σ]

theorem cycle_of_halted {m : Machine σ} {f : Fault} (h : m.fault = some f) :
    m.cycle = ⟨m, .error f, []⟩ := by
  simp only [cycle, h]

theorem cycle_of_unfetched {m : Machine σ} {f : Fault} (hm : m.fault = none)
    (h : m.state.fetch = .error f) :
    m.cycle = ⟨⟨m.state, m.source, some f⟩, .error f, [.halting f]⟩ := by
  have hs : Work.step.run ⟨m.state, m.source, []⟩ = .error f ⟨m.state, m.source, []⟩ := by
    simp only [Work.step, EStateM.run_bind, Work.run_state, Work.run_lift, h]
  simp only [cycle, hm, hs]
  rfl

/-- Up to the execution of the instruction a step makes its workspace ready; what comes after it
cannot fault. -/
theorem step_of_fetch {m : Machine σ} {op : Opcode} (h : m.state.fetch = .ok op) :
    Work.step.run ⟨m.state, m.source, []⟩ =
      match (Work.execute (.decode op)).run (m.workspace op) with
      | .ok ending w => .ok ⟨ending = .awaitingKey, w.state.timers.beeps⟩
          { w with
            state := w.state.tick
            notices := w.notices ++ if w.state.timers.beeps then [.beep] else [] }
      | .error f w => .error f w := by
  have hw : m.workspace op = ⟨m.state.advance, m.source, [] ++ [.fetched op m.state.registers]⟩ :=
    rfl
  simp only [Work.step, EStateM.run_bind, Work.run_state, Work.run_lift, h, Work.run_note,
    Work.run_update, ← hw]
  cases (Work.execute (.decode op)).run (m.workspace op) with
  | error f w => rfl
  | ok ending w =>
    cases hb : w.state.timers.beeps with
    | true => simp only [hb, if_true]; rfl
    | false => simp only [hb, Bool.false_eq_true, if_false, List.append_nil]; rfl

theorem cycle_of_refused {m : Machine σ} {op : Opcode} {f : Fault} (hm : m.fault = none)
    (h : m.state.fetch = .ok op) (hf : m.state.advance.Refuses f (.decode op)) :
    m.cycle = ⟨⟨m.state.advance, m.source, some f⟩, .error f,
      [.fetched op m.state.registers, .halting f]⟩ := by
  have hx : (Work.execute (.decode op)).run (m.workspace op) = .error f (m.workspace op) :=
    Work.run_execute_eq_error_iff.mpr ⟨hf, rfl⟩
  have hs := step_of_fetch h
  rw [hx] at hs
  simp only [cycle, hm, hs]
  rfl

theorem cycle_of_executed {m : Machine σ} {op : Opcode} {ending : Ending} {w : Workspace σ}
    (hm : m.fault = none) (h : m.state.fetch = .ok op)
    (hx : (Work.execute (.decode op)).run (m.workspace op) = .ok ending w) :
    m.cycle = ⟨⟨w.state.tick, w.source, none⟩,
      .ok ⟨ending = .awaitingKey, w.state.timers.beeps⟩,
      w.notices ++ if w.state.timers.beeps then [.beep] else []⟩ := by
  have hs := step_of_fetch h
  rw [hx] at hs
  simp only [cycle, hm, hs]

/-- A cycle finds the machine halted, finds no opcode, has its instruction refused or executes
it. -/
theorem cycle_cases (m : Machine σ) :
    (∃ f, m.fault = some f ∧ m.cycle = ⟨m, .error f, []⟩) ∨
    (∃ f, m.fault = none ∧ m.state.fetch = .error f ∧
      m.cycle = ⟨⟨m.state, m.source, some f⟩, .error f, [.halting f]⟩) ∨
    (∃ op f, m.fault = none ∧ m.state.fetch = .ok op ∧
      m.state.advance.Refuses f (.decode op) ∧
      m.cycle = ⟨⟨m.state.advance, m.source, some f⟩, .error f,
        [.fetched op m.state.registers, .halting f]⟩) ∨
    (∃ op ending w, m.fault = none ∧ m.state.fetch = .ok op ∧
      (Work.execute (.decode op)).run (m.workspace op) = .ok ending w ∧
      m.cycle = ⟨⟨w.state.tick, w.source, none⟩,
        .ok ⟨ending = .awaitingKey, w.state.timers.beeps⟩,
        w.notices ++ if w.state.timers.beeps then [.beep] else []⟩) := by
  cases hm : m.fault with
  | some f => exact Or.inl ⟨f, rfl, cycle_of_halted hm⟩
  | none =>
    refine Or.inr ?_
    cases h : m.state.fetch with
    | error f => exact Or.inl ⟨f, rfl, rfl, cycle_of_unfetched hm h⟩
    | ok op =>
      refine Or.inr ?_
      cases hx : (Work.execute (.decode op)).run (m.workspace op) with
      | error f w =>
        have hf := (Work.run_execute_eq_error_iff.mp hx).1
        exact Or.inl ⟨op, f, rfl, rfl, hf, cycle_of_refused hm h hf⟩
      | ok ending w => exact Or.inr ⟨op, ending, w, rfl, rfl, hx, cycle_of_executed hm h hx⟩

theorem cycle_of_isOk {m : Machine σ} (h : m.cycle.answer.isOk = true) :
    ∃ op ending w, m.fault = none ∧ m.state.fetch = .ok op ∧
      (Work.execute (.decode op)).run (m.workspace op) = .ok ending w ∧
      m.cycle = ⟨⟨w.state.tick, w.source, none⟩,
        .ok ⟨ending = .awaitingKey, w.state.timers.beeps⟩,
        w.notices ++ if w.state.timers.beeps then [.beep] else []⟩ := by
  rcases m.cycle_cases with ⟨f, -, hc⟩ | ⟨f, -, -, hc⟩ | ⟨op, f, -, -, -, hc⟩ | hx
  · rw [hc] at h
    cases h
  · rw [hc] at h
    cases h
  · rw [hc] at h
    cases h
  · exact hx

theorem cycle_of_ok {m : Machine σ} {r : Report} (h : m.cycle.answer = .ok r) :
    ∃ op ending w, m.fault = none ∧ m.state.fetch = .ok op ∧
      (Work.execute (.decode op)).run (m.workspace op) = .ok ending w ∧
      r = ⟨ending = .awaitingKey, w.state.timers.beeps⟩ ∧
      m.cycle.machine = ⟨w.state.tick, w.source, none⟩ := by
  have hok : m.cycle.answer.isOk = true := by
    rw [h]
    rfl
  obtain ⟨op, ending, w, hm, hop, hx, hc⟩ := cycle_of_isOk hok
  rw [hc] at h ⊢
  cases h
  exact ⟨op, ending, w, hm, hop, hx, rfl, rfl⟩

theorem ok_of_isOk {m : Machine σ} (h : m.cycle.answer.isOk = true) :
    ∃ r, m.cycle.answer = .ok r := by
  cases hr : m.cycle.answer with
  | ok r => exact ⟨r, rfl⟩
  | error f =>
    rw [hr] at h
    cases h

theorem error_of_not_isOk {m : Machine σ} (h : m.cycle.answer.isOk ≠ true) :
    ∃ f, m.cycle.answer = .error f := by
  cases hf : m.cycle.answer with
  | ok r =>
    rw [hf] at h
    exact absurd rfl h
  | error f => exact ⟨f, rfl⟩

/-- A cycle that does not succeed leaves the state alone, or gets past the opcode and no further. -/
theorem state_of_not_isOk {m : Machine σ} (h : m.cycle.answer.isOk ≠ true) :
    (∃ op, m.state.fetch = .ok op ∧ m.cycle.machine.state = m.state.advance) ∨
    (m.fault = none → ∃ f, m.state.fetch = .error f) ∧ m.cycle.machine.state = m.state := by
  rcases m.cycle_cases with ⟨f, hm, hc⟩ | ⟨f, -, hop, hc⟩ | ⟨op, f, -, hop, -, hc⟩ |
    ⟨op, ending, w, -, -, -, hc⟩
  · exact Or.inr ⟨fun hn => absurd (hm.symm.trans hn) (Option.some_ne_none f), by rw [hc]⟩
  · exact Or.inr ⟨fun _ => ⟨f, hop⟩, by rw [hc]⟩
  · exact Or.inl ⟨op, hop, by rw [hc]⟩
  · rw [hc] at h
    exact absurd rfl h

/-- A cycle that makes a machine halt finds no opcode or has its instruction refused. -/
theorem halting_cases {m : Machine σ} {f : Fault} (hm : m.fault = none)
    (hf : m.cycle.answer = .error f) :
    (m.state.fetch = .error f ∧ m.cycle.machine = ⟨m.state, m.source, some f⟩) ∨
    (∃ op, m.state.fetch = .ok op ∧ m.state.advance.Refuses f (.decode op) ∧
      m.cycle.machine = ⟨m.state.advance, m.source, some f⟩) := by
  rcases m.cycle_cases with ⟨g, hg, -⟩ | ⟨g, -, h, hc⟩ | ⟨op, g, -, h, hr, hc⟩ |
    ⟨op, ending, w, -, -, -, hc⟩
  · cases hm.symm.trans hg
  · rw [hc] at hf
    cases hf
    exact Or.inl ⟨h, by rw [hc]⟩
  · rw [hc] at hf
    cases hf
    exact Or.inr ⟨op, h, hr, by rw [hc]⟩
  · rw [hc] at hf
    cases hf

theorem answer_eq_error_iff {m : Machine σ} (hm : m.fault = none) (f : Fault) :
    m.cycle.answer = .error f ↔ m.state.fetch = .error f ∨
      ∃ op, m.state.fetch = .ok op ∧ m.state.advance.Refuses f (.decode op) := by
  constructor
  · intro hf
    rcases halting_cases hm hf with ⟨h, -⟩ | ⟨op, h, hr, -⟩
    · exact Or.inl h
    · exact Or.inr ⟨op, h, hr⟩
  · rintro (h | ⟨op, h, hr⟩)
    · rw [cycle_of_unfetched hm h]
    · rw [cycle_of_refused hm h hr]

theorem apply_of_ne_cycle (m : Machine σ) {e : Event} (he : e ≠ .cycle) :
    (m.apply e).machine = m.setState (m.state.receive e) := by
  cases e with
  | load program =>
    simp only [apply, load, State.receive]
    cases m.state.memory.load program <;> rfl
  | loadFrom reader =>
    simp only [apply, loadFrom, State.receive]
    cases m.state.memory.loadFrom reader <;> rfl
  | press key => rfl
  | release key => rfl
  | setKey key down => rfl
  | cycle => exact absurd rfl he

/-- What a host does other than cycling reaches memory and the keys only. -/
theorem host_event (m : Machine σ) (e : Event) (he : e ≠ .cycle) :
    ∃ memory keypad,
      (m.apply e).machine = { m with state := { m.state with memory, keypad } } := by
  obtain ⟨memory, keypad, hr⟩ := m.state.receive_cases e
  refine ⟨memory, keypad, ?_⟩
  rw [m.apply_of_ne_cycle he, hr]
  rfl

/-- What holds at the start and is kept by every event holds after every run. -/
theorem run_induction {P : Machine σ → Prop} {m : Machine σ} (start : P m)
    (next : ∀ n e, P n → P (n.apply e).machine) (events : List Event) : P (m.run events) := by
  induction events generalizing m with
  | nil => exact start
  | cons e rest ih => exact ih (next m e start)

/-- The machine after `n` cycles and nothing else. -/
def after (m : Machine σ) (n : Nat) : Machine σ := m.run (List.replicate n .cycle)

@[simp] theorem after_zero (m : Machine σ) : m.after 0 = m := rfl

theorem after_succ (m : Machine σ) (n : Nat) : m.after (n + 1) = m.cycle.machine.after n := rfl

theorem after_add (m : Machine σ) (a b : Nat) : m.after (a + b) = (m.after a).after b := by
  rw [after, ← List.replicate_append_replicate, run_append]
  rfl

theorem cycle_after (m : Machine σ) (n : Nat) : (m.after n).cycle.machine = m.after (n + 1) :=
  (m.after_add n 1).symm

end Machine

end Chip8
