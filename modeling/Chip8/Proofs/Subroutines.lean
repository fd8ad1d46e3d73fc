import Chip8.Proofs.Faults

/-!
Calls and returns pair up like brackets. Over a whole run, whatever else happens in it, the call
stack holds the addresses just past the calls that no return has answered yet (`Nested`), and a
return goes back to the newest of these and to the call stack that it met.
-/

namespace Chip8

theorem State.Leads.tick {s t : State} {i : Instruction} (h : s.Leads t i) : s.Leads t.tick i := by
  cases i <;> exact h

namespace Machine

variable {σ : Type}

/-- The opcode that the next cycle executes, if it gets that far, is a call. -/
def meetsCall (m : Machine σ) : Bool := m.opcode?.any (·.kind == 2)

def meetsReturn (m : Machine σ) : Bool := m.opcode?.any (·.word == 0x00EE)

/-- Where a call that this machine executes is to be returned to. -/
def returnAddress (m : Machine σ) : UInt16 := m.state.registers.counter + 2

/-- The call stack is that of the calls `opened`, and was so at each of them. -/
structure Nested (m : Machine σ) (opened : List (Machine σ)) : Prop where
  stack : m.state.registers.calls.toList = opened.map returnAddress
  callers : ∀ before c, before ++ [c] <+: opened →
    c.state.registers.calls.toList = before.map returnAddress ∧
      c.returnAddress.toNat = c.state.registers.counter.toNat + 2

theorem nested_new (source : σ) : Nested (new source) [] where
  stack := CallStack.toList_empty
  callers := by
    intro before c hp
    exact absurd (List.prefix_nil.mp hp) (by simp)

namespace Nested

variable {m n : Machine σ} {opened : List (Machine σ)}

theorem push (h : Nested m opened)
    (hs : n.state.registers.calls.toList =
      m.state.registers.calls.toList ++ [m.returnAddress])
    (hr : m.returnAddress.toNat = m.state.registers.counter.toNat + 2) :
    Nested n (opened ++ [m]) where
  stack := by
    rw [hs, h.stack, List.map_append]
    rfl
  callers := by
    intro before c hp
    rcases List.prefix_concat_iff.mp hp with he | hp
    · obtain ⟨rfl, hc⟩ := List.append_inj' he rfl
      cases hc
      exact ⟨h.stack, hr⟩
    · exact h.callers before c hp

/-- A call stack that is not empty has a newest call, which met the rest of it. -/
theorem newest (h : Nested m opened) {rest : List UInt16} {a : UInt16}
    (hs : m.state.registers.calls.toList = rest ++ [a]) :
    ∃ caller, opened.getLast? = some caller ∧ rest = opened.dropLast.map returnAddress ∧
      a.toNat = caller.state.registers.counter.toNat + 2 ∧
      rest = caller.state.registers.calls.toList := by
  have he := hs.symm.trans h.stack
  rcases List.eq_nil_or_concat opened with rfl | ⟨before, caller, hl⟩
  · exact absurd (congrArg List.length he) (by simp)
  · rw [List.concat_eq_append] at hl
    subst hl
    rw [List.map_append] at he
    obtain ⟨hrest, ha⟩ := List.append_inj' he rfl
    obtain ⟨hc, hr⟩ := h.callers before caller (List.prefix_refl _)
    refine ⟨caller, List.getLast?_concat, ?_, ?_, hrest.trans hc.symm⟩
    · rw [List.dropLast_concat]
      exact hrest
    · rw [List.cons.inj ha |>.1]
      exact hr

theorem pop (h : Nested m opened) {a : UInt16}
    (hs : m.state.registers.calls.toList = n.state.registers.calls.toList ++ [a]) :
    Nested n opened.dropLast where
  stack := by
    obtain ⟨_, -, hrest, -⟩ := h.newest hs
    exact hrest
  callers := by
    intro before c hp
    exact h.callers before c (hp.trans (List.dropLast_prefix opened))

theorem depth (h : Nested m opened) :
    m.state.registers.calls.depth.val = opened.length := by
  rw [← CallStack.length_toList, h.stack, List.length_map]

theorem addresses (h : Nested m opened) :
    m.state.registers.calls.toList.map UInt16.toNat =
      opened.map fun c => c.state.registers.counter.toNat + 2 := by
  rw [h.stack, List.map_map]
  refine List.map_congr_left fun c hc => ?_
  obtain ⟨before, after, rfl⟩ := List.append_of_mem hc
  refine (h.callers before c ?_).2
  exact ⟨after, by simp⟩

theorem keep (h : Nested m opened)
    (hs : n.state.registers.calls = m.state.registers.calls) : Nested n opened where
  stack := by
    rw [hs]
    exact h.stack
  callers := h.callers

end Nested

variable [ByteSource σ]

/-- The next cycle executes a call and succeeds. -/
def calls (m : Machine σ) : Bool := m.meetsCall && m.cycle.answer.isOk

def returns (m : Machine σ) : Bool := m.meetsReturn && m.cycle.answer.isOk

/-- The calls that are open after an event, from those before it: a call opens one, and a return is
paired with the call that was opened last. -/
def pair (opened : List (Machine σ)) (step : Machine σ × Event) : List (Machine σ) :=
  match step.2 with
  | .cycle =>
    if step.1.calls then opened ++ [step.1]
    else if step.1.returns then opened.dropLast
    else opened
  | _ => opened

/-- The calls of a run that are not paired with a return, oldest first; a call is given by the
machine that executed it. -/
def openCalls (source : σ) (events : List Event) : List (Machine σ) :=
  ((new source).steps events).foldl pair []

theorem leads_of_isOk {m : Machine σ} (h : m.cycle.answer.isOk = true) :
    ∃ op, m.state.fetch = .ok op ∧
      m.state.advance.Leads m.cycle.machine.state (.decode op) := by
  obtain ⟨op, ending, w, -, hop, hx, hc⟩ := cycle_of_isOk h
  rw [hc]
  exact ⟨op, hop, (Work.leads_of_run_execute hx).tick⟩

theorem stack_of_calls {m : Machine σ} (h : m.calls = true) :
    m.cycle.machine.state.registers.calls.toList =
      m.state.registers.calls.toList ++ [m.returnAddress] ∧
    m.returnAddress.toNat = m.state.registers.counter.toNat + 2 := by
  obtain ⟨hc, hok⟩ := Bool.and_eq_true_iff.mp h
  obtain ⟨op, hop, hl⟩ := leads_of_isOk hok
  obtain ⟨-, op', hop', hk⟩ := any_opcode?_iff.mp hc
  cases hop.symm.trans hop'
  obtain ⟨t, ht⟩ := (Instruction.decode_eq_call_iff op).mpr (beq_iff_eq.mp hk)
  rw [ht] at hl
  exact ⟨CallStack.toList_push hl.1, State.toNat_counter_advance hop⟩

theorem stack_of_returns {m : Machine σ} (h : m.returns = true) :
    m.state.registers.calls.toList =
      m.cycle.machine.state.registers.calls.toList ++
        [m.cycle.machine.state.registers.counter] := by
  obtain ⟨hr, hok⟩ := Bool.and_eq_true_iff.mp h
  obtain ⟨op, hop, hl⟩ := leads_of_isOk hok
  obtain ⟨-, op', hop', hw⟩ := any_opcode?_iff.mp hr
  cases hop.symm.trans hop'
  rw [(Instruction.decode_eq_ret_iff op).mpr (beq_iff_eq.mp hw)] at hl
  exact CallStack.toList_pop hl

theorem stack_of_neither {m : Machine σ} (hc : m.calls ≠ true) (hr : m.returns ≠ true) :
    m.cycle.machine.state.registers.calls = m.state.registers.calls := by
  rcases m.cycle_cases with ⟨f, -, h⟩ | ⟨f, -, -, h⟩ | ⟨op, f, -, -, -, h⟩ |
    ⟨op, ending, w, hm, hop, hx, h⟩
  · rw [h]
  · rw [h]
  · rw [h]
    rfl
  · have hok : m.cycle.answer.isOk = true := by rw [h]; rfl
    have hl := (Work.leads_of_run_execute hx).tick
    rw [h]
    refine hl.calls_eq ((Instruction.usesCalls_eq_false_iff _).mpr
      ⟨fun a ha => hc ?_, fun ha => hr ?_⟩)
    · have hk := (Instruction.decode_eq_call_iff op).mp ⟨a, ha⟩
      exact Bool.and_eq_true_iff.mpr
        ⟨any_opcode?_iff.mpr ⟨hm, op, hop, beq_iff_eq.mpr hk⟩, hok⟩
    · have hw := (Instruction.decode_eq_ret_iff op).mp ha
      exact Bool.and_eq_true_iff.mpr
        ⟨any_opcode?_iff.mpr ⟨hm, op, hop, beq_iff_eq.mpr hw⟩, hok⟩

namespace Nested

variable {m : Machine σ} {opened : List (Machine σ)}

theorem apply (h : Nested m opened) (e : Event) :
    Nested (m.apply e).machine (pair opened (m, e)) := by
  by_cases he : e = .cycle
  · subst he
    simp only [pair]
    split
    · rename_i hc
      obtain ⟨hs, hr⟩ := stack_of_calls hc
      exact h.push hs hr
    · split
      · rename_i hr
        exact h.pop (stack_of_returns hr)
      · rename_i hc hr
        exact h.keep (stack_of_neither hc hr)
  · obtain ⟨memory, keypad, hm⟩ := m.host_event e he
    have hp : pair opened (m, e) = opened := by
      cases e with
      | cycle => exact absurd rfl he
      | _ => rfl
    rw [hm, hp]
    exact h.keep rfl

theorem run (h : Nested m opened) (events : List Event) :
    Nested (m.run events) ((m.steps events).foldl pair opened) := by
  induction events generalizing m opened with
  | nil => exact h
  | cons e rest ih => exact ih (h.apply e)

end Nested

theorem nested_run (source : σ) (events : List Event) :
    Nested ((new source).run events) (openCalls source events) :=
  (nested_new source).run events

theorem stackOverflow_iff {m : Machine σ} (hm : m.fault = none) :
    m.cycle.answer = .error .stackOverflow ↔
      m.meetsCall = true ∧ m.state.registers.calls.depth = 15 := by
  rw [answer_eq_error_iff_faults hm, meetsCall, any_opcode?_iff]
  constructor
  · rintro (_ | _ | ⟨a, b, c, h, hd⟩)
    exact ⟨⟨hm, _, (m.state.meets_iff_fetch ..).mp h, by simp⟩, hd⟩
  · rintro ⟨⟨-, op, hop, hk⟩, hd⟩
    have h := State.meets_of_fetch hop
    rw [beq_iff_eq.mp hk] at h
    exact .overflow _ _ _ h hd

theorem stackUnderflow_iff {m : Machine σ} (hm : m.fault = none) :
    m.cycle.answer = .error .stackUnderflow ↔
      m.meetsReturn = true ∧ m.state.registers.calls.depth = 0 := by
  rw [answer_eq_error_iff_faults hm, meetsReturn, any_opcode?_iff]
  constructor
  · rintro (_ | ⟨h, hd⟩)
    exact ⟨⟨hm, _, (m.state.meets_iff_fetch ..).mp h, rfl⟩, hd⟩
  · rintro ⟨⟨-, op, hop, hw⟩, hd⟩
    have he : op = .ofDigits 0 0 0xE 0xE := congrArg Opcode.mk (beq_iff_eq.mp hw)
    rw [he] at hop
    exact .underflow ((m.state.meets_iff_fetch ..).mpr hop) hd

/-- After every run the call stack holds the addresses just past the open calls, oldest first; a
return that succeeds goes to the address just past the newest of them and leaves the call stack as
that call met it; and a cycle overflows the call stack exactly if it is a call with fifteen calls
open, and underflows it exactly if it is a return with none open. -/
theorem subroutines_nest (source : σ) (events : List Event) :
    ((new source).run events).state.registers.calls.toList.map UInt16.toNat =
      (openCalls source events).map (fun c => c.state.registers.counter.toNat + 2) ∧
    ((new source).run events).state.registers.calls.depth.val =
      (openCalls source events).length ∧
    (((new source).run events).returns = true →
      ∃ caller, (openCalls source events).getLast? = some caller ∧
        ((new source).run events).cycle.machine.state.registers.counter.toNat =
          caller.state.registers.counter.toNat + 2 ∧
        ((new source).run events).cycle.machine.state.registers.calls.toList =
          caller.state.registers.calls.toList) ∧
    (((new source).run events).fault = none →
      (((new source).run events).cycle.answer = .error .stackOverflow ↔
        ((new source).run events).meetsCall = true ∧ (openCalls source events).length = 15) ∧
      (((new source).run events).cycle.answer = .error .stackUnderflow ↔
        ((new source).run events).meetsReturn = true ∧ openCalls source events = [])) := by
  have h := nested_run source events
  refine ⟨h.addresses, h.depth, fun hr => ?_, fun hm => ⟨?_, ?_⟩⟩
  · obtain ⟨caller, hl, -, ha, hs⟩ := h.newest (stack_of_returns hr)
    exact ⟨caller, hl, ha, hs⟩
  · rw [stackOverflow_iff hm, ← h.depth]
    exact and_congr_right' ⟨congrArg Fin.val, fun e => Fin.ext e⟩
  · rw [stackUnderflow_iff hm, ← List.length_eq_zero_iff, ← h.depth]
    exact and_congr_right' ⟨congrArg Fin.val, fun e => Fin.ext e⟩

end Machine

end Chip8
