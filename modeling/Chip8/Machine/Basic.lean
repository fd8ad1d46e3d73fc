import Chip8.Machine.Execution

/-!
The machine: a state, a source of random bytes and the fault that halted it, if one did. A cycle
fetches an instruction, executes it and lets the timers count. A halted machine answers every cycle
with its fault and changes no more; loading and the keys still reach it.
-/

namespace Chip8

structure Machine (σ : Type) where
  state : State
  source : σ
  fault : Option Fault

/-- What a host learns from a cycle. -/
structure Report where
  /-- The machine waits for a key; hold one and cycle again. -/
  awaitingKey : Bool
  /-- The sound ended. -/
  beep : Bool
  deriving DecidableEq, Repr

/-- A machine after some operation, with the operation's answer and what there is to log. -/
structure Transition (σ α : Type) where
  machine : Machine σ
  answer : α
  notices : List Notice

namespace Machine

variable {σ : Type}

def new (source : σ) : Machine σ := ⟨.initial, source, none⟩

def setState (m : Machine σ) (s : State) : Machine σ := { m with state := s }

def load (m : Machine σ) (program : List UInt8) : Transition σ (Except LoadError Unit) :=
  match m.state.memory.load program with
  | .ok memory => ⟨m.setState { m.state with memory }, .ok (), [.loaded program.length]⟩
  | .error e => ⟨m, .error e, []⟩

def loadFrom (m : Machine σ) (r : Reader) : Transition σ (Except LoadError Unit) :=
  match m.state.memory.loadFrom r with
  | .ok (size, memory) => ⟨m.setState { m.state with memory }, .ok (), [.loaded size]⟩
  | .error e => ⟨m, .error e, []⟩

def setKey (m : Machine σ) (key : UInt8) (down : Bool) : Machine σ :=
  m.setState { m.state with keypad := m.state.keypad.set key down }

def press (m : Machine σ) (key : UInt8) : Machine σ := m.setKey key true

def release (m : Machine σ) (key : UInt8) : Machine σ := m.setKey key false

/-- The screen, if a redraw of it is requested. -/
def frame? (m : Machine σ) : Option Screen :=
  if m.state.screen.redraw then some m.state.screen else none

/-- The opcode that the next cycle executes, if it gets that far. -/
def opcode? (m : Machine σ) : Option Opcode :=
  match m.fault with
  | some _ => none
  | none => m.state.fetch.toOption

@[simp] theorem state_setState (m : Machine σ) (s : State) : (m.setState s).state = s := rfl

@[simp] theorem fault_setState (m : Machine σ) (s : State) : (m.setState s).fault = m.fault := rfl

@[simp] theorem source_setState (m : Machine σ) (s : State) :
    (m.setState s).source = m.source := rfl

end Machine

/-- One step of a machine that has not halted. -/
def Work.step {σ : Type} [ByteSource σ] : Work σ Report := do
  let op ← (← state).fetch
  note (.fetched op (← state).registers)
  update (·.advance)
  let ending ← execute (.decode op)
  let beep := (← state).timers.beeps
  update (·.tick)
  if beep then
    note .beep
  return ⟨ending = .awaitingKey, beep⟩

/-- Lets a machine that has not halted take a step; a fault halts it. -/
def Machine.cycle {σ : Type} [ByteSource σ] (m : Machine σ) :
    Transition σ (Except Fault Report) :=
  match m.fault with
  | some f => ⟨m, .error f, []⟩
  | none =>
    match Work.step.run ⟨m.state, m.source, []⟩ with
    | .ok report w => ⟨⟨w.state, w.source, none⟩, .ok report, w.notices⟩
    | .error f w => ⟨⟨w.state, w.source, some f⟩, .error f, w.notices ++ [.halting f]⟩

end Chip8
