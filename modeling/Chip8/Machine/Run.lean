import Chip8.Machine.Basic

/-!
Runs of a machine: any sequence of what a host can do with it, and stretches of nothing but cycles.
-/

namespace Chip8

/-- What a host does with a machine. -/
inductive Event where
  | load (program : List UInt8)
  | loadFrom (reader : Reader)
  | press (key : UInt8)
  | release (key : UInt8)
  | setKey (key : UInt8) (down : Bool)
  | cycle

/-- What the machine answers. -/
inductive Answer where
  | loaded (result : Except LoadError Unit)
  | cycled (result : Except Fault Report)
  | none

/-- Counts over a stretch of cycles that succeeded, none greater than the number of these cycles.
A host counts in 64 bits, as wide as the limit it may set. No count passes the limit, and without
one a count outgrows that width only after 2 ^ 64 cycles: up to there natural numbers count the
same. -/
structure Tally where
  cycles : Nat
  beeps : Nat
  waits : Nat
  /-- Cycles that left a redraw requested. -/
  redraws : Nat
  deriving DecidableEq, Repr

namespace Tally

def zero : Tally := ⟨0, 0, 0, 0⟩

def add (t : Tally) (r : Report) (redraw : Bool) : Tally :=
  ⟨t.cycles + 1, t.beeps + r.beep.toNat, t.waits + r.awaitingKey.toNat, t.redraws + redraw.toNat⟩

end Tally

/-- A machine after a stretch of cycles. -/
structure Stretch (σ : Type) where
  machine : Machine σ
  tally : Tally
  fault : Option Fault
  notices : Array Notice

namespace Machine

variable {σ : Type} [ByteSource σ]

def apply (m : Machine σ) : Event → Transition σ Answer
  | .load program =>
    let t := m.load program
    ⟨t.machine, .loaded t.answer, t.notices⟩
  | .loadFrom reader =>
    let t := m.loadFrom reader
    ⟨t.machine, .loaded t.answer, t.notices⟩
  | .press key => ⟨m.press key, .none, []⟩
  | .release key => ⟨m.release key, .none, []⟩
  | .setKey key down => ⟨m.setKey key down, .none, []⟩
  | .cycle =>
    let t := m.cycle
    ⟨t.machine, .cycled t.answer, t.notices⟩

/-- The machine after a sequence of events. -/
def run (m : Machine σ) (events : List Event) : Machine σ :=
  events.foldl (fun m e => (m.apply e).machine) m

/-- The events of a sequence, each with the machine that it meets. -/
def steps (m : Machine σ) : List Event → List (Machine σ × Event)
  | [] => []
  | e :: rest => (m, e) :: steps (m.apply e).machine rest

@[simp] theorem run_nil (m : Machine σ) : m.run [] = m := rfl

@[simp] theorem run_cons (m : Machine σ) (e : Event) (rest : List Event) :
    m.run (e :: rest) = (m.apply e).machine.run rest := rfl

theorem run_append (m : Machine σ) (a b : List Event) : m.run (a ++ b) = (m.run a).run b :=
  List.foldl_append ..

end Machine

namespace Stretch

variable {σ : Type}

def start (m : Machine σ) : Stretch σ := ⟨m, .zero, none, #[]⟩

/-- Goes on for up to `n` cycles and ends at the first fault. -/
def extend [ByteSource σ] (s : Stretch σ) : Nat → Stretch σ
  | 0 => s
  | n + 1 =>
    let t := s.machine.cycle
    let notices := s.notices ++ t.notices
    match t.answer with
    | .error f => ⟨t.machine, s.tally, some f, notices⟩
    | .ok report =>
      extend ⟨t.machine, s.tally.add report t.machine.state.screen.redraw, none, notices⟩ n

end Stretch

end Chip8
