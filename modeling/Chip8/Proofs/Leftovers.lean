import Chip8.Proofs.Determinism

/-!
A pop leaves its address in its slot, and the lowest slot is never used. What lies in such slots
cannot be told by anything that a machine does. The proof is a machine that has no slots at all but
a list of return addresses (`ListMachine`): each machine is sent to the list machine that it stands
for (`Machine.listed`), every event does the same on both sides (`Machine.apply_listed`), and
machines that differ in leftovers alone are sent to one and the same (`Machine.alike_iff`).
-/

namespace Chip8

namespace CallStack

/-- The same depth, and the same addresses in the slots in use. -/
def Agrees (s t : CallStack) : Prop :=
  t.depth = s.depth ∧ ∀ k, 1 ≤ k → k ≤ s.depth.val → t.slots[k]? = s.slots[k]?

theorem agrees_iff {s t : CallStack} : s.Agrees t ↔ t.toList = s.toList := by
  constructor
  · rintro ⟨hd, hs⟩
    apply List.ext_getElem?
    intro k
    rw [getElem?_toList, getElem?_toList, hd]
    split
    · exact hs (k + 1) (by omega) (by omega)
    · rfl
  · intro h
    have hd : t.depth = s.depth := by
      have := congrArg List.length h
      rw [length_toList, length_toList] at this
      exact Fin.ext this
    refine ⟨hd, fun k hpos hk => ?_⟩
    have hlt : k - 1 < s.depth.val := by omega
    have hget := congrArg (·[k - 1]?) h
    simp only [getElem?_toList, hd, if_pos hlt, Nat.sub_add_cancel hpos] at hget
    exact hget

end CallStack

/-- A source that is nothing but the bytes it will hand out. -/
structure ByteStream where
  bytes : Nat → UInt8

instance : ByteSource ByteStream where
  next s := (s.bytes 0, ⟨fun n => s.bytes (n + 1)⟩)

/-- What a source will hand out. -/
def ByteSource.stream {σ : Type} [ByteSource σ] (s : σ) : ByteStream := ⟨ByteSource.get s⟩

/-- A machine whose call stack is a list of at most fifteen return addresses, oldest first. -/
structure ListMachine where
  /-- All but the call stack; the one in here stays empty. -/
  base : Machine ByteStream
  calls : List UInt16

namespace ListMachine

def call (calls : List UInt16) (target : UInt16) : Work ByteStream (Ending × List UInt16) := do
  if calls.length < 15 then
    let back := (← Work.state).registers.counter
    return (← Work.finish (·.jump target), calls ++ [back])
  else throw .stackOverflow

def ret (calls : List UInt16) : Work ByteStream (Ending × List UInt16) := do
  match calls.getLast? with
  | some back => return (← Work.finish (·.jump back), calls.dropLast)
  | none => throw .stackUnderflow

/-- Executes an instruction when the calls in progress are those given. -/
def execute (calls : List UInt16) : Instruction → Work ByteStream (Ending × List UInt16)
  | .call target => call calls target.word
  | .ret => ret calls
  | i => do return (← Work.execute i, calls)

def cycle (m : ListMachine) : Reply × ListMachine :=
  match m.base.fault with
  | some f => (⟨.cycle, .cycled (.error f), []⟩, m)
  | none =>
    match m.base.state.fetch with
    | .error f =>
      (⟨.cycle, .cycled (.error f), [Notice.record (.halting f)]⟩,
        ⟨{ m.base with fault := some f }, m.calls⟩)
    | .ok op =>
      match (execute m.calls (.decode op)).run (m.base.workspace op) with
      | .error f w =>
        (⟨.cycle, .cycled (.error f), (w.notices ++ [Notice.halting f]).map Notice.record⟩,
          ⟨⟨w.state, w.source, some f⟩, m.calls⟩)
      | .ok (ending, calls) w =>
        let beep := w.state.timers.beeps
        (⟨.cycle, .cycled (.ok ⟨ending = .awaitingKey, beep⟩),
            (w.notices ++ if beep then [Notice.beep] else []).map Notice.record⟩,
          ⟨⟨w.state.tick, w.source, none⟩, calls⟩)

def apply (m : ListMachine) (e : Event) : Reply × ListMachine :=
  match e with
  | .cycle => m.cycle
  | _ => ((m.base.apply e).reply e, ⟨(m.base.apply e).machine, m.calls⟩)

def run (m : ListMachine) (events : List Event) : ListMachine :=
  events.foldl (fun m e => (m.apply e).2) m

def replies (m : ListMachine) : List Event → List Reply
  | [] => []
  | e :: rest => (m.apply e).1 :: replies (m.apply e).2 rest

variable {w : Workspace ByteStream} {calls : List UInt16}

theorem run_call_of_lt (h : calls.length < 15) (target : UInt16) :
    (call calls target).run w = .ok (.done, calls ++ [w.state.registers.counter])
      { w with state := w.state.jump target } := by
  simp only [call, if_pos h, EStateM.run_bind, Work.run_state, Work.run_finish,
    EStateM.run_pure]

theorem run_call_of_not_lt (h : ¬ calls.length < 15) (target : UInt16) :
    (call calls target).run w = .error .stackOverflow w := by
  simp only [call, if_neg h]
  rfl

theorem run_ret_append (back : UInt16) :
    (ret (calls ++ [back])).run w = .ok (.done, calls) { w with state := w.state.jump back } := by
  simp only [ret, List.getLast?_concat, List.dropLast_concat, EStateM.run_bind,
    Work.run_finish, EStateM.run_pure]

theorem run_ret_nil : (ret []).run w = .error .stackUnderflow w := rfl

theorem apply_of_ne_cycle (m : ListMachine) {e : Event} (he : e ≠ .cycle) :
    m.apply e = ((m.base.apply e).reply e, ⟨(m.base.apply e).machine, m.calls⟩) := by
  cases e with
  | cycle => exact absurd rfl he
  | _ => rfl

theorem execute_of_not_usesCalls {i : Instruction} (hi : i.usesCalls = false) :
    execute calls i = do return (← Work.execute i, calls) := by
  cases i with
  | call | ret => cases hi
  | _ => rfl

end ListMachine

/-- A state with its call stack emptied, leftovers and all. -/
def State.withoutCalls (s : State) : State := s.exchange s.keypad .empty

namespace ListMachine

variable {w : Workspace ByteStream} {s t : State} {i : Instruction} {f : Fault} {e : Ending}

/-- The list machine refuses an instruction for the same fault. -/
theorem run_execute_of_refuses (h : s.Refuses f i) (hw : w.state = s.withoutCalls) :
    (execute s.registers.calls.toList i).run w = .error f w := by
  -- what does not use the calls is refused on the empty call stack as on any other
  cases hi : i.usesCalls with
  | true =>
    cases i with
    | call target =>
      obtain ⟨hd, rfl⟩ := h
      refine run_call_of_not_lt ?_ target.word
      rw [CallStack.length_toList, hd]
      decide
    | ret =>
      obtain ⟨hd, rfl⟩ := h
      have hnil : s.registers.calls.toList = [] := by
        rw [← List.length_eq_zero_iff, CallStack.length_toList, hd]
        rfl
      rw [hnil]
      exact run_ret_nil
    | _ => cases hi
  | false =>
    have hr : w.state.Refuses f i := by
      rw [hw]
      exact (State.refuses_exchange fun h => nomatch hi.symm.trans h).mpr h
    rw [execute_of_not_usesCalls hi, EStateM.run_bind,
      Work.run_execute_eq_error_iff.mpr ⟨hr, rfl⟩]

/-- It executes an instruction by the same rule, with the list in place of the call stack. -/
theorem run_execute_of_executes (h : s.Executes (ByteSource.next w.source).1 i e t)
    (hw : w.state = s.withoutCalls) :
    (execute s.registers.calls.toList i).run w = .ok (e, t.registers.calls.toList)
      ⟨t.withoutCalls, Work.sourceAfter w.source i, w.notices ++ s.remarks i⟩ := by
  have hn : w.notices ++ [] = w.notices := List.append_nil _
  cases hi : i.usesCalls with
  | true =>
    cases h with
    | @call target calls hp =>
      have hlt : s.registers.calls.toList.length < 15 := by
        have := CallStack.depth_push hp
        have := calls.depth.isLt
        rw [CallStack.length_toList]
        omega
      refine (run_call_of_lt hlt target.word).trans ?_
      change _ = EStateM.Result.ok (_, calls.toList) (Workspace.mk _ _ (w.notices ++ []))
      rw [CallStack.toList_push hp, hn, hw]
      rfl
    | @ret back calls hp =>
      rw [CallStack.toList_pop hp]
      refine (run_ret_append back).trans ?_
      change _ = EStateM.Result.ok (_, calls.toList) (Workspace.mk _ _ (w.notices ++ []))
      rw [hn, hw]
      rfl
    | _ => cases hi
  | false =>
    have ht : t.withoutCalls = t.exchange s.keypad .empty := by rw [State.withoutCalls, h.keypad]
    have hx := h.exchange (ByteSource.next w.source).1 s.keypad .empty (fun _ => rfl)
      (fun _ => rfl) (fun h => nomatch hi.symm.trans h)
    rw [if_neg (Bool.eq_false_iff.mp hi), ← ht, ← State.withoutCalls, ← hw] at hx
    rw [execute_of_not_usesCalls hi, EStateM.run_bind, Work.run_execute_of_executes hx, hw,
      h.leads.calls_eq hi]
    simp only [State.withoutCalls, State.remarks_exchange, EStateM.run_pure]

end ListMachine

namespace Machine

variable {σ τ : Type} [ByteSource σ] [ByteSource τ]

/-- The list machine that a machine stands for. -/
def listed (m : Machine σ) : ListMachine :=
  ⟨⟨m.state.withoutCalls, ByteSource.stream m.source, m.fault⟩, m.state.registers.calls.toList⟩

@[simp] theorem fault_listed (m : Machine σ) : m.listed.base.fault = m.fault := rfl

@[simp] theorem fetch_listed (m : Machine σ) :
    m.listed.base.state.fetch = m.state.fetch := rfl

@[simp] theorem source_listed (m : Machine σ) (op : Opcode) :
    (m.listed.base.workspace op).source = ByteSource.stream m.source := rfl

/-- Two machines that agree on everything, their sources on all they will hand out, except for the
slots of the call stack that are not in use. -/
structure Alike (m : Machine σ) (m' : Machine τ) : Prop where
  state : m'.state = { m.state with registers.calls := m'.state.registers.calls }
  calls : m.state.registers.calls.Agrees m'.state.registers.calls
  source : ∀ n, ByteSource.get m'.source n = ByteSource.get m.source n
  fault : m'.fault = m.fault

theorem alike_iff {m : Machine σ} {m' : Machine τ} : m.Alike m' ↔ m'.listed = m.listed := by
  constructor
  · intro h
    have hstate : m'.state.withoutCalls = m.state.withoutCalls := by
      rw [h.state]
      rfl
    have hstream : ByteSource.stream m'.source = ByteSource.stream m.source :=
      congrArg ByteStream.mk (funext h.source)
    rw [listed, listed, hstate, hstream, h.fault, CallStack.agrees_iff.mp h.calls]
  · intro h
    obtain ⟨hbase, hcalls⟩ := ListMachine.mk.inj h
    obtain ⟨hstate, hsource, hfault⟩ := Machine.mk.inj hbase
    refine ⟨?_, CallStack.agrees_iff.mpr hcalls, congrFun (ByteStream.mk.inj hsource), hfault⟩
    calc m'.state
      _ = { m'.state.withoutCalls with registers.calls := m'.state.registers.calls } := rfl
      _ = { m.state.withoutCalls with registers.calls := m'.state.registers.calls } := by
        rw [hstate]
      _ = { m.state with registers.calls := m'.state.registers.calls } := rfl

theorem sourceAfter_stream (source : σ) (i : Instruction) :
    Work.sourceAfter (ByteSource.stream source) i =
      ByteSource.stream (Work.sourceAfter source i) := by
  cases i <;> rfl

/-- A cycle does the same to a machine and to the list machine that it stands for. -/
theorem cycle_listed (m : Machine σ) :
    m.listed.cycle = ((m.apply .cycle).reply .cycle, m.cycle.machine.listed) := by
  rcases m.cycle_rule_cases with ⟨f, hm⟩ | ⟨f, hm, hop⟩ | ⟨op, f, hm, hop, hr⟩ |
    ⟨op, e, t, hm, hop, hx⟩
  · simp only [ListMachine.cycle, fault_listed, hm, apply, cycle_of_halted hm]
    rfl
  · simp only [ListMachine.cycle, fault_listed, fetch_listed, hm, hop, apply,
      cycle_of_unfetched hm hop]
    rfl
  · have hrun := ListMachine.run_execute_of_refuses (w := m.listed.base.workspace op) hr rfl
    change (ListMachine.execute m.listed.calls (.decode op)).run _ = _ at hrun
    simp only [ListMachine.cycle, fault_listed, fetch_listed, hm, hop, hrun, apply,
      cycle_of_refused hm hop hr]
    rfl
  · have hrun := ListMachine.run_execute_of_executes (w := m.listed.base.workspace op) hx rfl
    change (ListMachine.execute m.listed.calls (.decode op)).run _ = _ at hrun
    simp only [ListMachine.cycle, fault_listed, fetch_listed, hm, hop, hrun, source_listed,
      sourceAfter_stream, apply, cycle_of_executes hm hop hx]
    rfl

/-- So does every event. -/
theorem apply_listed (m : Machine σ) (e : Event) :
    m.listed.apply e = ((m.apply e).reply e, (m.apply e).machine.listed) := by
  by_cases he : e = .cycle
  · rw [he]
    exact m.cycle_listed
  · have hreply : (m.listed.base.apply e).reply e = (m.apply e).reply e :=
      reply_of_ne_cycle he rfl
    have hstate : m.listed.base.state.receive e = (m.state.receive e).withoutCalls := by
      rw [State.withoutCalls, m.state.keypad_receive, ← m.state.receive_exchange]
      rfl
    obtain ⟨memory, keypad, hr⟩ := m.state.receive_cases e
    rw [ListMachine.apply_of_ne_cycle _ he, hreply, m.apply_of_ne_cycle he,
      m.listed.base.apply_of_ne_cycle he, hstate, hr]
    rfl

theorem run_listed (m : Machine σ) (events : List Event) :
    m.listed.run events = (m.run events).listed := by
  induction events generalizing m with
  | nil => rfl
  | cons e rest ih =>
    rw [run_cons, ← ih, ListMachine.run, List.foldl_cons, m.apply_listed]
    rfl

theorem replies_listed (m : Machine σ) (events : List Event) :
    m.listed.replies events = m.replies events := by
  induction events generalizing m with
  | nil => rfl
  | cons e rest ih => rw [replies_cons, ← ih, ListMachine.replies, m.apply_listed]

/-- What lies in the slots of the call stack that are not in use makes no difference. Two machines
that differ in nothing else give the same replies to every sequence of events, down to their logs,
and differ in nothing else after it, so that they list the same calls. For each of them does what
the list machine does that it stands for. -/
theorem leftovers_are_unobservable {m : Machine σ} {m' : Machine τ} (h : m.Alike m')
    (events : List Event) :
    (m.run events).Alike (m'.run events) ∧
    m'.replies events = m.replies events ∧
    (m'.run events).state.registers.calls.toList = (m.run events).state.registers.calls.toList ∧
    m.listed.replies events = m.replies events ∧
    m.listed.run events = (m.run events).listed := by
  have hlisted := alike_iff.mp h
  have hafter : (m.run events).Alike (m'.run events) := by
    rw [alike_iff, ← run_listed, ← run_listed, hlisted]
  refine ⟨hafter, ?_, CallStack.agrees_iff.mp hafter.calls, m.replies_listed events,
    m.run_listed events⟩
  rw [← m'.replies_listed, hlisted, m.replies_listed]

/-- A new machine but for rubbish in all slots of its call stack. -/
def littered : Machine Scripted :=
  (new ⟨[]⟩).setState
    { State.initial with registers.calls := ⟨Vector.replicate 16 0xABC, 0⟩ }

theorem alike_littered : (new ⟨[]⟩ : Machine Scripted).Alike littered :=
  ⟨rfl, ⟨rfl, fun _ hpos hk => absurd hk (Nat.not_le_of_lt hpos)⟩, fun _ => rfl, rfl⟩

/-- It calls a subroutine and returns like a new machine does. -/
theorem leftovers_are_unobservable_littered :
    (new ⟨[]⟩ : Machine Scripted).Alike littered ∧ littered.state ≠ State.initial ∧
    littered.replies [.load [0x22, 0x04, 0x00, 0x00, 0x00, 0xEE], .cycle, .cycle] =
      (new ⟨[]⟩ : Machine Scripted).replies
        [.load [0x22, 0x04, 0x00, 0x00, 0x00, 0xEE], .cycle, .cycle] :=
  ⟨alike_littered, by decide +kernel, (leftovers_are_unobservable alike_littered _).2.1⟩

end Machine

end Chip8
