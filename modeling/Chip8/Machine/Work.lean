import Chip8.Machine.Notice
import Chip8.Machine.State
import Chip8.Random.ByteSource

/-!
Work on a state, step by step. A fault ends the work where it stands: what was changed, drawn or
noted before it remains.
-/

namespace Chip8

/-- What a cycle works on. -/
structure Workspace (σ : Type) where
  state : State
  source : σ
  /-- What there is to log, oldest first. -/
  notices : List Notice

abbrev Work (σ : Type) := EStateM Fault (Workspace σ)

/-- A value that is computed without changing anything, or its fault. -/
instance {σ : Type} : MonadLift (Except Fault) (Work σ) where
  monadLift r := fun w =>
    match r with
    | .ok a => .ok a w
    | .error f => .error f w

/-- How an instruction that did not fault left the machine. -/
inductive Ending where
  | done
  /-- No key was held; the instruction is next again. -/
  | awaitingKey
  deriving DecidableEq, Repr

namespace Work

variable {σ : Type}

def state : Work σ State := return (← get).state

def update (change : State → State) : Work σ Unit :=
  modify fun w => { w with state := change w.state }

/-- The last change of an instruction. -/
def finish (change : State → State) : Work σ Ending := do
  update change
  return .done

def note (n : Notice) : Work σ Unit :=
  modify fun w => { w with notices := w.notices ++ [n] }

def nextByte [ByteSource σ] : Work σ UInt8 := modifyGet fun w =>
  let (b, source) := ByteSource.next w.source
  (b, { w with source })

@[simp] theorem run_lift {α : Type} (r : Except Fault α) (w : Workspace σ) :
    (liftM r : Work σ α).run w = match r with
      | .ok a => .ok a w
      | .error f => .error f w := rfl

@[simp] theorem run_state (w : Workspace σ) : state.run w = .ok w.state w := rfl

@[simp] theorem run_update (change : State → State) (w : Workspace σ) :
    (update change).run w = .ok () { w with state := change w.state } := rfl

@[simp] theorem run_finish (change : State → State) (w : Workspace σ) :
    (finish change).run w = .ok .done { w with state := change w.state } := rfl

@[simp] theorem run_note (n : Notice) (w : Workspace σ) :
    (note n).run w = .ok () { w with notices := w.notices ++ [n] } := rfl

@[simp] theorem run_nextByte [ByteSource σ] (w : Workspace σ) :
    nextByte.run w =
      .ok (ByteSource.next w.source).1 { w with source := (ByteSource.next w.source).2 } := rfl

end Work

end Chip8
