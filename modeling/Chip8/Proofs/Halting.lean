import Chip8.Proofs.Faults

/-!
A fault is for good. From the first fault on nothing but loads and key events reaches the state of
a machine (`Machine.run_of_halted`), and the fault is the one error that is ever logged
(`Machine.errors_notices`).
-/

namespace Chip8

/-- The notices that are logged as errors. -/
def Notice.errors (notices : List Notice) : List Notice := notices.filter (·.level = .error)

theorem Notice.errors_append (first second : List Notice) :
    errors (first ++ second) = errors first ++ errors second :=
  List.filter_append ..

theorem State.errors_remarks (s : State) (i : Instruction) : Notice.errors (s.remarks i) = [] := by
  cases i <;> rfl

/-- Loads and key events reach neither registers nor screen nor timers. -/
theorem State.foldl_receive_frame (s : State) (events : List Event) :
    (events.foldl receive s).registers = s.registers ∧
    (events.foldl receive s).screen = s.screen ∧
    (events.foldl receive s).timers = s.timers := by
  induction events generalizing s with
  | nil => exact ⟨rfl, rfl, rfl⟩
  | cons e rest ih =>
    obtain ⟨memory, keypad, hr⟩ := s.receive_cases e
    have h := ih (s.receive e)
    rw [hr] at h
    rw [List.foldl_cons, hr]
    exact h

namespace Machine

variable {σ : Type} [ByteSource σ] {m : Machine σ} {f : Fault}

/-- What a run has to log, oldest first. -/
def notices (m : Machine σ) (events : List Event) : List Notice :=
  (m.steps events).flatMap fun s => (s.1.apply s.2).notices

theorem notices_cons (m : Machine σ) (e : Event) (rest : List Event) :
    m.notices (e :: rest) = (m.apply e).notices ++ (m.apply e).machine.notices rest := rfl

theorem apply_of_halted (h : m.fault = some f) (e : Event) :
    (m.apply e).machine = m.setState (m.state.receive e) := by
  by_cases he : e = .cycle
  · subst he
    rw [apply, cycle_of_halted h]
    rfl
  · exact m.apply_of_ne_cycle he

theorem fault_of_halted (h : m.fault = some f) (e : Event) :
    (m.apply e).machine.fault = some f := by
  rw [apply_of_halted h, fault_setState, h]

theorem run_of_halted (h : m.fault = some f) (events : List Event) :
    m.run events = m.setState (events.foldl State.receive m.state) := by
  induction events generalizing m with
  | nil => rfl
  | cons e rest ih =>
    rw [run_cons, ih (fault_of_halted h e), apply_of_halted h]
    rfl

/-- A cycle that answers with a fault leaves the machine halted by it. -/
theorem halted_of_answer (h : m.cycle.answer = .error f) :
    m.cycle.machine.fault = some f ∧ m.cycle.machine.source = m.source := by
  rcases m.cycle_cases with ⟨g, hg, hc⟩ | ⟨g, -, -, hc⟩ | ⟨op, g, -, -, -, hc⟩ |
    ⟨op, ending, w, -, -, -, hc⟩
  · rw [hc] at h ⊢
    cases h
    exact ⟨hg, rfl⟩
  · rw [hc] at h ⊢
    cases h
    exact ⟨rfl, rfl⟩
  · rw [hc] at h ⊢
    cases h
    exact ⟨rfl, rfl⟩
  · rw [hc] at h
    cases h

theorem errors_host_event (m : Machine σ) {e : Event} (he : e ≠ .cycle) :
    Notice.errors (m.apply e).notices = [] := by
  cases e with
  | load program =>
    simp only [apply, load]
    split <;> rfl
  | loadFrom reader =>
    simp only [apply, loadFrom]
    split <;> rfl
  | press key => rfl
  | release key => rfl
  | setKey key down => rfl
  | cycle => exact absurd rfl he

/-- An event logs an error just if it halts the machine. -/
theorem errors_apply (hm : m.fault = none) (e : Event) :
    Notice.errors (m.apply e).notices =
      ((m.apply e).machine.fault.map Notice.halting).toList := by
  by_cases he : e = .cycle
  · subst he
    rcases m.cycle_cases with ⟨g, hg, -⟩ | ⟨g, -, -, hc⟩ | ⟨op, g, -, -, -, hc⟩ |
      ⟨op, ending, w, -, -, hx, hc⟩
    · cases hm.symm.trans hg
    · rw [apply, hc]
      rfl
    · rw [apply, hc]
      rfl
    · have hn := (Work.run_execute_eq_ok hx).2.2
      rw [apply, hc, hn, Notice.errors_append, Notice.errors_append, State.errors_remarks]
      cases w.state.timers.beeps <;> rfl
  · rw [m.errors_host_event he, m.apply_of_ne_cycle he, fault_setState, hm]
    rfl

theorem errors_of_halted (h : m.fault = some f) (events : List Event) :
    Notice.errors (m.notices events) = [] := by
  induction events generalizing m with
  | nil => rfl
  | cons e rest ih =>
    rw [notices_cons, Notice.errors_append, ih (fault_of_halted h e), List.append_nil]
    by_cases he : e = .cycle
    · subst he
      rw [apply, cycle_of_halted h]
      rfl
    · exact m.errors_host_event he

/-- The errors that a run logs are the fault that halts the machine, if one does. -/
theorem errors_notices (hm : m.fault = none) (events : List Event) :
    Notice.errors (m.notices events) = ((m.run events).fault.map Notice.halting).toList := by
  induction events generalizing m with
  | nil =>
    rw [run_nil, hm]
    rfl
  | cons e rest ih =>
    rw [notices_cons, Notice.errors_append, errors_apply hm, run_cons]
    cases hf : (m.apply e).machine.fault with
    | none => exact ih hf
    | some f =>
      rw [errors_of_halted hf, run_of_halted hf, fault_setState, hf]
      rfl

/-- Once a cycle has answered with a fault, every later one answers with the same fault and changes
nothing, logs nothing and takes no random byte, whatever else happens in between. The state goes on
as the loads and key events make it, and they reach neither registers nor screen nor timers. The
cycle that faulted logs the one error in the life of the machine. -/
theorem fault_is_permanent (h : m.cycle.answer = .error f) (events : List Event) :
    (m.cycle.machine.run events).fault = some f ∧
    (m.cycle.machine.run events).cycle = ⟨m.cycle.machine.run events, .error f, []⟩ ∧
    (m.cycle.machine.run events).source = m.source ∧
    (m.cycle.machine.run events).state =
      events.foldl State.receive m.cycle.machine.state ∧
    (m.cycle.machine.run events).state.registers = m.cycle.machine.state.registers ∧
    (m.cycle.machine.run events).state.screen = m.cycle.machine.state.screen ∧
    (m.cycle.machine.run events).state.timers = m.cycle.machine.state.timers ∧
    Notice.errors (m.cycle.machine.notices events) = [] ∧
    (m.fault = none → Notice.errors m.cycle.notices = [.halting f]) ∧
    (∀ (source : σ) (life : List Event), Notice.errors ((new source).notices life) =
      (((new source).run life).fault.map Notice.halting).toList) := by
  obtain ⟨hf, hs⟩ := halted_of_answer h
  have hrun := run_of_halted hf events
  have hfault : (m.cycle.machine.run events).fault = some f := by
    rw [hrun, fault_setState, hf]
  obtain ⟨hregisters, hscreen, htimers⟩ := m.cycle.machine.state.foldl_receive_frame events
  refine ⟨hfault, cycle_of_halted hfault, ?_, ?_, ?_, ?_, ?_, errors_of_halted hf events,
    fun hm => ?_, fun source life => errors_notices rfl life⟩
  · rw [hrun, source_setState, hs]
  · rw [hrun, state_setState]
  · rw [hrun, state_setState, hregisters]
  · rw [hrun, state_setState, hscreen]
  · rw [hrun, state_setState, htimers]
  · have he := errors_apply hm .cycle
    rw [apply] at he
    rw [he, hf]
    rfl

/-- A machine that underflowed stays halted over a load, a key and another cycle. -/
theorem fault_is_permanent_return :
    (loaded [0x00, 0xEE]).cycle.answer = .error .stackUnderflow ∧
    ((loaded [0x00, 0xEE]).cycle.machine.run [.load [0x12, 0x00], .press 3, .cycle]).fault =
      some .stackUnderflow := by
  have h : (loaded [0x00, 0xEE]).cycle.answer = .error .stackUnderflow :=
    (answer_eq_error_iff_faults rfl _).mpr (.underflow meets_return rfl)
  exact ⟨h, (fault_is_permanent h [.load [0x12, 0x00], .press 3, .cycle]).1⟩

end Machine

end Chip8
