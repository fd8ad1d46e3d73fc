import Chip8.Proofs.Faults

/-!
What a cycle depends on. The rules of execution leave no choice (`State.Executes.unique`), and each
of them looks at little: the random byte matters to one instruction, the keys to three and the call
stack to two (`State.Executes.exchange`). So two machines that differ in nothing but their keys and
their sources go the same way as long as neither is asked for (`Machine.Twins.cycle`).
-/

namespace Chip8

namespace Instruction

/-- The instructions that ask for a key. -/
def readsKeys : Instruction → Bool
  | .skipIf (.keyHeld _) | .skipIf (.keyFree _) | .awaitKey _ => true
  | _ => false

end Instruction

/-- A press, a release or a setting of a key. -/
def Event.isKey : Event → Bool
  | .press _ | .release _ | .setKey _ _ => true
  | _ => false

/-- What an event makes of the keys. -/
def Keypad.receive (k : Keypad) : Event → Keypad
  | .press key => k.press key
  | .release key => k.release key
  | .setKey key down => k.set key down
  | _ => k

theorem Keypad.receive_of_not_isKey (k : Keypad) {e : Event} (he : e.isKey = false) :
    k.receive e = k := by
  cases e with
  | load | loadFrom | cycle => rfl
  | _ => cases he

namespace State

variable {s t t' : State} {b b' : UInt8} {i : Instruction} {e e' : Ending}

theorem Executes.unique (h : s.Executes b i e t) (h' : s.Executes b i e' t') :
    e' = e ∧ t' = t := by
  cases h with
  | ret hp =>
    cases h' with
    | ret hp' =>
      cases hp.symm.trans hp'
      exact ⟨rfl, rfl⟩
  | call target hp =>
    cases h' with
    | call _ hp' =>
      cases hp.symm.trans hp'
      exact ⟨rfl, rfl⟩
  | skip hc =>
    cases h' with
    | skip => exact ⟨rfl, rfl⟩
    | stay hc' => cases hc.symm.trans hc'
  | stay hc =>
    cases h' with
    | skip hc' => cases hc.symm.trans hc'
    | stay => exact ⟨rfl, rfl⟩
  | draw x y height hs =>
    cases h' with
    | draw _ _ _ hs' =>
      cases hs.symm.trans hs'
      exact ⟨rfl, rfl⟩
  | takeKey x hk =>
    cases h' with
    | takeKey _ hk' =>
      cases hk.symm.trans hk'
      exact ⟨rfl, rfl⟩
    | wait _ hk' => cases hk.symm.trans hk'
  | wait x hk =>
    cases h' with
    | takeKey _ hk' => cases hk.symm.trans hk'
    | wait => exact ⟨rfl, rfl⟩
  | digits x hm =>
    cases h' with
    | digits _ hm' =>
      cases hm.symm.trans hm'
      exact ⟨rfl, rfl⟩
  | save x hm =>
    cases h' with
    | save _ hm' =>
      cases hm.symm.trans hm'
      exact ⟨rfl, rfl⟩
  | restore x hd =>
    cases h' with
    | restore _ hd' =>
      cases hd.symm.trans hd'
      exact ⟨rfl, rfl⟩
  | _ =>
    cases h'
    exact ⟨rfl, rfl⟩

/-- An instruction that a rule applies to is not refused. -/
theorem Executes.not_refuses (h : s.Executes b i e t) (f : Fault) : ¬ s.Refuses f i := by
  intro hf
  cases h with
  | ret hp =>
    have he := (RegisterFile.pop_eq_error_iff s.registers f).mpr hf
    rw [RegisterFile.pop, map_eq_error_iff] at he
    cases hp.symm.trans he
  | call target hp =>
    have he := (RegisterFile.push_eq_error_iff s.registers s.registers.counter f).mpr hf
    rw [RegisterFile.push, map_eq_error_iff] at he
    cases hp.symm.trans he
  | skip hc => cases hc.symm.trans ((s.test_eq_error_iff _ f).mpr hf)
  | stay hc => cases hc.symm.trans ((s.test_eq_error_iff _ f).mpr hf)
  | draw x y height hs => cases hs.symm.trans ((s.readRange_eq_error_iff _ f).mpr hf)
  | digits x hm => cases hm.symm.trans ((s.writeRange_eq_error_iff _ f).mpr hf)
  | save x hm =>
    rw [Refuses, ← s.registers.length_before] at hf
    cases hm.symm.trans ((s.writeRange_eq_error_iff _ f).mpr hf)
  | restore x hd => cases hd.symm.trans ((s.readRange_eq_error_iff _ f).mpr hf)
  | _ => exact hf

/-- The same state with its keypad and its call stack exchanged for others. -/
def exchange (s : State) (keypad : Keypad) (calls : CallStack) : State :=
  { s with keypad, registers.calls := calls }

variable {keypad : Keypad} {calls : CallStack}

theorem test_exchange {c : Condition}
    (hk : (Instruction.skipIf c).readsKeys = true → keypad = s.keypad) :
    (s.exchange keypad calls).test c = s.test c := by
  cases c with
  | keyHeld x =>
    rw [hk rfl]
    rfl
  | keyFree x =>
    rw [hk rfl]
    rfl
  | _ => rfl

/-- An instruction that asks for none of what is exchanged is executed as before, with another
random byte even if it takes none. What it does to the call stack, if anything, it does as before
too. -/
theorem Executes.exchange (h : s.Executes b i e t) (b' : UInt8) (keypad : Keypad)
    (calls : CallStack) (hb : (∃ x kk, i = .random x kk) → b' = b)
    (hk : i.readsKeys = true → keypad = s.keypad)
    (hc : i.usesCalls = true → calls = s.registers.calls) :
    (s.exchange keypad calls).Executes b' i e
      (t.exchange keypad (if i.usesCalls then t.registers.calls else calls)) := by
  cases h with
  | ret hp =>
    rw [hc rfl]
    exact .ret hp
  | call target hp =>
    rw [hc rfl]
    exact .call target hp
  | skip ht => exact .skip ((test_exchange hk).trans ht)
  | stay ht => exact .stay ((test_exchange hk).trans ht)
  | random x kk =>
    rw [hb ⟨x, kk, rfl⟩]
    exact .random x kk
  | takeKey x hl =>
    rw [hk rfl]
    exact .takeKey x hl
  | wait x hl =>
    rw [hk rfl]
    exact .wait x hl
  | draw x y height hs => exact .draw x y height hs
  | digits x hm => exact .digits x hm
  | save x hm => exact .save x hm
  | restore x hd => exact .restore x hd
  | combine op x y => cases op <;> exact .combine _ x y
  | _ => constructor

theorem Executes.calls_eq_ite (h : s.Executes b i e t) :
    (if i.usesCalls then t.registers.calls else s.registers.calls) = t.registers.calls := by
  by_cases hi : i.usesCalls = true
  · exact if_pos hi
  · rw [if_neg hi, h.leads.calls_eq (Bool.eq_false_iff.mpr hi)]

theorem keypad_receive (s : State) (event : Event) :
    (s.receive event).keypad = s.keypad.receive event := by
  cases event with
  | load program =>
    simp only [receive]
    cases s.memory.load program <;> rfl
  | loadFrom reader =>
    simp only [receive]
    cases s.memory.loadFrom reader <;> rfl
  | _ => rfl

theorem registers_receive (s : State) (event : Event) :
    (s.receive event).registers = s.registers := by
  obtain ⟨memory, keypad, hr⟩ := s.receive_cases event
  rw [hr]

theorem receive_exchange (s : State) (keypad : Keypad) (calls : CallStack) (event : Event) :
    (s.exchange keypad calls).receive event =
      (s.receive event).exchange (keypad.receive event) calls := by
  cases event with
  | load program =>
    simp only [receive, exchange]
    cases s.memory.load program <;> rfl
  | loadFrom reader =>
    simp only [receive, exchange]
    cases s.memory.loadFrom reader <;> rfl
  | _ => rfl

theorem refuses_exchange {f : Fault} (hc : i.usesCalls = true → calls = s.registers.calls) :
    (s.exchange keypad calls).Refuses f i ↔ s.Refuses f i := by
  cases i with
  | ret =>
    rw [hc rfl]
    rfl
  | call target =>
    rw [hc rfl]
    rfl
  | skipIf c => cases c <;> rfl
  | _ => rfl

@[simp] theorem remarks_exchange : (s.exchange keypad calls).remarks i = s.remarks i := by
  cases i <;> rfl

/-- The opcode at the program counter is one that asks for a key. -/
def AsksKeys (s : State) : Prop :=
  ∃ x, s.Meets 0xE x 9 0xE ∨ s.Meets 0xE x 0xA 1 ∨ s.Meets 0xF x 0 0xA

theorem asksKeys_iff {op : Opcode} (hop : s.fetch = .ok op) :
    s.AsksKeys ↔ (Instruction.decode op).readsKeys = true := by
  have hheld (x : Nibble) : s.Meets 0xE x 9 0xE ↔ Instruction.decode op = .skipIf (.keyHeld x) :=
    meets_iff_decode hop (.keyHeld x) fun | .keyHeld _ => rfl
  have hfree (x : Nibble) : s.Meets 0xE x 0xA 1 ↔ Instruction.decode op = .skipIf (.keyFree x) :=
    meets_iff_decode hop (.keyFree x) fun | .keyFree _ => rfl
  have hawait (x : Nibble) : s.Meets 0xF x 0 0xA ↔ Instruction.decode op = .awaitKey x :=
    meets_iff_decode hop (.awaitKey x) fun | .awaitKey _ => rfl
  simp only [AsksKeys, hheld, hfree, hawait]
  constructor
  · rintro ⟨x, h | h | h⟩
    · rw [h]
      rfl
    · rw [h]
      rfl
    · rw [h]
      rfl
  · intro h
    cases hi : Instruction.decode op with
    | skipIf c =>
      rw [hi] at h
      cases c with
      | keyHeld x => exact ⟨x, Or.inl rfl⟩
      | keyFree x => exact ⟨x, Or.inr (Or.inl rfl)⟩
      | _ => cases h
    | awaitKey x => exact ⟨x, Or.inr (Or.inr rfl)⟩
    | _ =>
      rw [hi] at h
      cases h

end State

namespace Work

variable {σ : Type} [ByteSource σ]

theorem run_execute_of_executes {w : Workspace σ} {i : Instruction} {e : Ending} {t : State}
    (h : w.state.Executes (ByteSource.next w.source).1 i e t) :
    (execute i).run w = .ok e ⟨t, sourceAfter w.source i, w.notices ++ w.state.remarks i⟩ := by
  cases hx : (execute i).run w with
  | error f w' => exact absurd (run_execute_eq_error_iff.mp hx).1 (h.not_refuses f)
  | ok e' w' =>
    obtain ⟨h', hs, hn⟩ := run_execute_eq_ok hx
    obtain ⟨rfl, ht⟩ := h.unique h'
    rw [← hs, ← hn, ← ht]

end Work

/-- An event of a run with what came of it. -/
structure Reply where
  event : Event
  answer : Answer
  log : List LogRecord

def Transition.reply {σ : Type} (t : Transition σ Answer) (e : Event) : Reply :=
  ⟨e, t.answer, t.notices.map Notice.record⟩

namespace Machine

variable {σ τ : Type} {m : Machine σ} {m' : Machine τ}

/-- The opcode that the next cycle executes, if it gets that far, is one that takes a random byte. -/
def meetsRandom (m : Machine σ) : Bool := m.opcode?.any (·.kind == 0xC)

/-- The event is a cycle that takes a random byte. -/
def takesByte (m : Machine σ) : Event → Bool
  | .cycle => m.meetsRandom
  | _ => false

/-- The next cycle executes an instruction that asks for a key. -/
def AsksKeys (m : Machine σ) : Prop := m.fault = none ∧ m.state.AsksKeys

/-- Two machines that differ at most in the keys that are held and in their sources. -/
structure Twins (m : Machine σ) (m' : Machine τ) : Prop where
  state : m'.state = m.state.exchange m'.state.keypad m.state.registers.calls
  fault : m'.fault = m.fault

theorem Twins.of_eq (hs : m'.state = m.state) (hf : m'.fault = m.fault) : m.Twins m' where
  state := by
    rw [hs]
    rfl
  fault := hf

theorem Twins.takesByte_eq (h : m.Twins m') (e : Event) : m'.takesByte e = m.takesByte e := by
  have hfetch : m'.state.fetch = m.state.fetch := by rw [h.state]; rfl
  cases e with
  | cycle => simp only [takesByte, meetsRandom, opcode?, h.fault, hfetch]
  | _ => rfl

theorem meetsRandom_iff {op : Opcode} (hm : m.fault = none) (hop : m.state.fetch = .ok op) :
    m.meetsRandom = true ↔ ∃ x kk, Instruction.decode op = .random x kk := by
  rw [Instruction.decode_eq_random_iff, meetsRandom, any_opcode?_iff]
  constructor
  · rintro ⟨-, op', hop', hk⟩
    cases hop.symm.trans hop'
    exact beq_iff_eq.mp hk
  · exact fun hk => ⟨hm, op, hop, beq_iff_eq.mpr hk⟩

variable [ByteSource σ] [ByteSource τ]

/-- A cycle that a rule applies to, in full. -/
theorem cycle_of_executes {op : Opcode} {e : Ending} {t : State} (hm : m.fault = none)
    (hop : m.state.fetch = .ok op)
    (h : m.state.advance.Executes (ByteSource.next m.source).1 (.decode op) e t) :
    m.cycle = ⟨⟨t.tick, Work.sourceAfter m.source (.decode op), none⟩,
      .ok ⟨e = .awaitingKey, t.timers.beeps⟩,
      .fetched op m.state.registers :: m.state.advance.remarks (.decode op) ++
        if t.timers.beeps then [.beep] else []⟩ :=
  cycle_of_executed hm hop (Work.run_execute_of_executes (w := m.workspace op) h)

/-- The ways of a cycle once more, with the rule for its execution in the last of them. -/
theorem cycle_rule_cases (m : Machine σ) :
    (∃ f, m.fault = some f) ∨
    (∃ f, m.fault = none ∧ m.state.fetch = .error f) ∨
    (∃ op f, m.fault = none ∧ m.state.fetch = .ok op ∧ m.state.advance.Refuses f (.decode op)) ∨
    (∃ op e t, m.fault = none ∧ m.state.fetch = .ok op ∧
      m.state.advance.Executes (ByteSource.next m.source).1 (.decode op) e t) := by
  rcases m.cycle_cases with ⟨f, hm, -⟩ | ⟨f, hm, hop, -⟩ | ⟨op, f, hm, hop, hr, -⟩ |
    ⟨op, e, w, hm, hop, hx, -⟩
  · exact Or.inl ⟨f, hm⟩
  · exact Or.inr (Or.inl ⟨f, hm, hop⟩)
  · exact Or.inr (Or.inr (Or.inl ⟨op, f, hm, hop, hr⟩))
  · exact Or.inr (Or.inr (Or.inr ⟨op, e, w.state, hm, hop, Work.executes_of_run_execute hx⟩))

/-- A cycle takes one byte from the source if it executes the instruction for it, and else none. -/
theorem source_cycle (m : Machine σ) : m.cycle.machine.source =
    if m.meetsRandom then (ByteSource.next m.source).2 else m.source := by
  have hidle (hn : ∀ op, m.fault = none → m.state.fetch = .ok op → op.kind ≠ 0xC) :
      m.meetsRandom ≠ true := by
    intro h
    obtain ⟨hm, op, hop, hk⟩ := any_opcode?_iff.mp h
    exact hn op hm hop (beq_iff_eq.mp hk)
  rcases m.cycle_rule_cases with ⟨f, hm⟩ | ⟨f, hm, hop⟩ | ⟨op, f, hm, hop, hr⟩ |
    ⟨op, e, t, hm, hop, hx⟩
  · rw [cycle_of_halted hm, if_neg (hidle fun op hn => nomatch hm.symm.trans hn)]
  · rw [cycle_of_unfetched hm hop, if_neg (hidle fun op _ hop' => nomatch hop.symm.trans hop')]
  · rw [cycle_of_refused hm hop hr, if_neg]
    intro h
    obtain ⟨x, kk, hi⟩ := (meetsRandom_iff hm hop).mp h
    rw [hi] at hr
    exact hr
  · rw [cycle_of_executes hm hop hx]
    by_cases h : m.meetsRandom = true
    · obtain ⟨x, kk, hi⟩ := (meetsRandom_iff hm hop).mp h
      rw [if_pos h, hi]
      rfl
    · rw [if_neg h]
      cases hi : Instruction.decode op with
      | random x kk => exact absurd ((meetsRandom_iff hm hop).mpr ⟨x, kk, hi⟩) h
      | _ => rfl

/-- Nothing else reaches the source. -/
theorem source_apply (m : Machine σ) (e : Event) : (m.apply e).machine.source =
    if m.takesByte e then (ByteSource.next m.source).2 else m.source := by
  by_cases he : e = .cycle
  · rw [he]
    exact m.source_cycle
  · rw [m.apply_of_ne_cycle he, source_setState, if_neg]
    cases e with
    | cycle => exact absurd rfl he
    | _ => exact Bool.false_ne_true

theorem keypad_cycle (m : Machine σ) : m.cycle.machine.state.keypad = m.state.keypad := by
  by_cases hok : m.cycle.answer.isOk = true
  · obtain ⟨op, ending, w, -, -, hx, hc⟩ := cycle_of_isOk hok
    rw [hc]
    exact (Work.executes_of_run_execute hx).keypad
  · rcases state_of_not_isOk hok with ⟨op, -, h⟩ | ⟨-, h⟩
    · rw [h]
      rfl
    · rw [h]

theorem keypad_apply (m : Machine σ) (e : Event) :
    (m.apply e).machine.state.keypad = m.state.keypad.receive e := by
  by_cases he : e = .cycle
  · rw [he]
    exact m.keypad_cycle
  · rw [m.apply_of_ne_cycle he, state_setState, State.keypad_receive]

/-- What is answered to a load or a key event is a matter of memory alone. -/
theorem reply_of_ne_cycle {e : Event} (he : e ≠ .cycle)
    (hmemory : m'.state.memory = m.state.memory) :
    (m'.apply e).reply e = (m.apply e).reply e := by
  cases e with
  | load program =>
    simp only [apply, load, hmemory]
    cases m.state.memory.load program <;> rfl
  | loadFrom reader =>
    simp only [apply, loadFrom, hmemory]
    cases m.state.memory.loadFrom reader <;> rfl
  | cycle => exact absurd rfl he
  | _ => rfl

namespace Twins

/-- Twins go the same way as long as no key is asked for that only one of them has and no byte is
taken that differs. -/
theorem cycle (h : m.Twins m') (hkeys : m.AsksKeys → m'.state.keypad = m.state.keypad)
    (hbyte : m.meetsRandom = true →
      (ByteSource.next m'.source).1 = (ByteSource.next m.source).1) :
    m.cycle.machine.Twins m'.cycle.machine ∧ m'.cycle.answer = m.cycle.answer ∧
      m'.cycle.notices = m.cycle.notices := by
  have hregisters : m'.state.registers = m.state.registers := by rw [h.state]; rfl
  have hfetch : m'.state.fetch = m.state.fetch := by rw [h.state]; rfl
  have hadvance : m'.state.advance =
      m.state.advance.exchange m'.state.keypad m.state.advance.registers.calls := by
    rw [h.state]
    rfl
  rcases m.cycle_rule_cases with ⟨f, hm⟩ | ⟨f, hm, hop⟩ | ⟨op, f, hm, hop, hr⟩ |
    ⟨op, e, t, hm, hop, hx⟩
  · rw [cycle_of_halted hm, cycle_of_halted (h.fault.trans hm)]
    exact ⟨h, rfl, rfl⟩
  · rw [cycle_of_unfetched hm hop, cycle_of_unfetched (h.fault.trans hm) (hfetch.trans hop)]
    exact ⟨⟨h.state, rfl⟩, rfl, rfl⟩
  · have hr' : m'.state.advance.Refuses f (.decode op) := by
      rw [hadvance]
      exact (State.refuses_exchange fun _ => rfl).mpr hr
    rw [cycle_of_refused hm hop hr,
      cycle_of_refused (h.fault.trans hm) (hfetch.trans hop) hr', hregisters]
    exact ⟨⟨hadvance, rfl⟩, rfl, rfl⟩
  · have hx' := hx.exchange (ByteSource.next m'.source).1 m'.state.keypad
      m.state.advance.registers.calls (fun hi => hbyte ((meetsRandom_iff hm hop).mpr hi))
      (fun hi => hkeys ⟨hm, (State.asksKeys_iff hop).mpr hi⟩) (fun _ => rfl)
    rw [← hadvance, hx.calls_eq_ite] at hx'
    rw [cycle_of_executes hm hop hx, cycle_of_executes (h.fault.trans hm) (hfetch.trans hop) hx',
      hadvance, hregisters, State.remarks_exchange]
    exact ⟨⟨rfl, rfl⟩, rfl, rfl⟩

/-- And as far as they go the same way, they give the same replies. -/
theorem apply (h : m.Twins m') {e : Event}
    (hkeys : e = .cycle → m.AsksKeys → m'.state.keypad = m.state.keypad)
    (hbyte : m.takesByte e = true →
      (ByteSource.next m'.source).1 = (ByteSource.next m.source).1) :
    (m.apply e).machine.Twins (m'.apply e).machine ∧
      (m'.apply e).reply e = (m.apply e).reply e := by
  by_cases he : e = .cycle
  · subst he
    obtain ⟨hcycle, hanswer, hnotices⟩ := h.cycle (hkeys rfl) hbyte
    refine ⟨hcycle, ?_⟩
    simp only [Transition.reply, Machine.apply, hanswer, hnotices]
  · have hmemory : m'.state.memory = m.state.memory := by rw [h.state]; rfl
    refine ⟨?_, reply_of_ne_cycle he hmemory⟩
    rw [m.apply_of_ne_cycle he, m'.apply_of_ne_cycle he]
    refine ⟨?_, h.fault⟩
    rw [state_setState, state_setState, m'.state.keypad_receive, m.state.registers_receive,
      ← m.state.receive_exchange, ← h.state]

end Twins

theorem steps_append (m : Machine σ) (a b : List Event) :
    m.steps (a ++ b) = m.steps a ++ (m.run a).steps b := by
  induction a generalizing m with
  | nil => rfl
  | cons e rest ih => rw [List.cons_append, steps, ih, run_cons, steps, List.cons_append]

/-- All that comes of each event of a run, the log down to its last level. -/
def replies (m : Machine σ) (events : List Event) : List Reply :=
  (m.steps events).map fun s => (s.1.apply s.2).reply s.2

theorem replies_cons (m : Machine σ) (e : Event) (rest : List Event) :
    m.replies (e :: rest) = (m.apply e).reply e :: (m.apply e).machine.replies rest := rfl

end Machine

end Chip8
