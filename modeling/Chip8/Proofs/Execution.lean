import Chip8.Machine.Execution
import Chip8.Proofs.Outcomes

/-!
What the work of an instruction comes to. Every instruction that can fault does so before it changes
anything, and for a reason that the state shows beforehand (`run_execute_eq_error_iff`).
-/

namespace Chip8

/-- The end of an instruction that turns the state into the one given, or else only faults. -/
def Workspace.settle {σ : Type} (w : Workspace σ) :
    Except Fault State → EStateM.Result Fault (Workspace σ) Ending
  | .ok t => .ok .done { w with state := t }
  | .error f => .error f w

theorem Workspace.settle_eq_error_iff {σ : Type} {w w' : Workspace σ} {f : Fault}
    {r : Except Fault State} : w.settle r = .error f w' ↔ r = .error f ∧ w' = w := by
  cases r with
  | ok t => exact ⟨nofun, nofun⟩
  | error g =>
    constructor
    · intro h
      cases h
      exact ⟨rfl, rfl⟩
    · rintro ⟨h, rfl⟩
      cases h
      rfl

theorem Workspace.settle_eq_ok_iff {σ : Type} {w w' : Workspace σ} {e : Ending}
    {r : Except Fault State} :
    w.settle r = .ok e w' ↔ ∃ t, r = .ok t ∧ e = .done ∧ w' = { w with state := t } := by
  cases r with
  | ok t =>
    constructor
    · intro h
      cases h
      exact ⟨t, rfl, rfl, rfl⟩
    · rintro ⟨u, h, rfl, rfl⟩
      cases h
      rfl
  | error g => exact ⟨nofun, nofun⟩

namespace Work

variable {σ : Type} (w : Workspace σ)

theorem run_call (target : UInt16) :
    (call target).run w = w.settle ((w.state.registers.push w.state.registers.counter).map
      fun r => (w.state.setRegisters r).jump target) := by
  simp only [call, EStateM.run_bind, run_state, run_lift]
  cases w.state.registers.push w.state.registers.counter with
  | ok r => rfl
  | error f => rfl

theorem run_ret :
    ret.run w = w.settle (w.state.registers.pop.map
      fun (a, r) => (w.state.setRegisters r).jump a) := by
  simp only [ret, EStateM.run_bind, run_state, run_lift]
  cases w.state.registers.pop with
  | ok p => rfl
  | error f => rfl

theorem run_skipIf (c : Condition) :
    (skipIf c).run w = w.settle ((w.state.test c).map
      fun holds => if holds then w.state.setRegisters w.state.registers.skip else w.state) := by
  simp only [skipIf, EStateM.run_bind, run_state, run_lift]
  cases w.state.test c with
  | ok holds => cases holds <;> rfl
  | error f => rfl

theorem run_draw (x y height : Nibble) :
    (draw x y height).run w = w.settle
      ((w.state.memory.readRange w.state.registers.index.toNat height).map fun sprite =>
        { w.state with
          screen := w.state.screen.draw (w.state.registers.get x) (w.state.registers.get y) sprite
          registers := w.state.registers.setFlag (w.state.screen.drawFlag
            (w.state.registers.get x) (w.state.registers.get y) sprite) }) := by
  simp only [draw, EStateM.run_bind, run_state, run_lift]
  cases w.state.memory.readRange w.state.registers.index.toNat height with
  | ok sprite => simp only [run_update, run_finish, Workspace.settle, Except.map, State.setRegisters]
  | error f => rfl

theorem run_writeAtIndex (data : List UInt8) :
    (writeAtIndex data).run w = w.settle
      ((w.state.memory.writeRange w.state.registers.index.toNat data).map
        fun memory => { w.state with memory }) := by
  simp only [writeAtIndex, EStateM.run_bind, run_state, run_lift]
  cases w.state.memory.writeRange w.state.registers.index.toNat data with
  | ok memory => rfl
  | error f => rfl

theorem run_restore (x : Nibble) :
    (restore x).run w = w.settle
      ((w.state.memory.readRange w.state.registers.index.toNat x).map
        fun data => w.state.setRegisters (w.state.registers.setFirst data)) := by
  simp only [restore, EStateM.run_bind, run_state, run_lift]
  cases w.state.memory.readRange w.state.registers.index.toNat x with
  | ok data => rfl
  | error f => rfl

theorem run_digits [ByteSource σ] (x : Nibble) :
    (execute (.digits x)).run w =
      (writeAtIndex (decimalDigits (w.state.registers.get x))).run w := rfl

theorem run_save [ByteSource σ] (x : Nibble) :
    (execute (.save x)).run w = (writeAtIndex (w.state.registers.before x)).run w := rfl

theorem run_awaitKey_of_held {key : Nibble} (h : w.state.keypad.lowest? = some key) (x : Nibble) :
    (awaitKey x).run w = w.settle (.ok (w.state.setRegister x (UInt8.ofNat key.val))) := by
  simp only [awaitKey, EStateM.run_bind, run_state, h]
  rfl

theorem run_awaitKey_of_none (h : w.state.keypad.lowest? = none) (x : Nibble) :
    (awaitKey x).run w =
      .ok .awaitingKey { w with state := w.state.setRegisters w.state.registers.rewind } := by
  simp only [awaitKey, EStateM.run_bind, run_state, h]
  rfl

end Work

namespace State

/-- An access of `len` bytes at the index fails with fault `f`. -/
def Outside (s : State) (len : Nat) (f : Fault) : Prop :=
  0 < len ∧ 0x1000 < s.registers.index.toNat + len ∧
    f = .addressOutOfRange (max s.registers.index.toNat 0x1000)

/-- An instruction that is executed in state `s` faults with `f`. -/
def Refuses (s : State) (f : Fault) : Instruction → Prop
  | .ret => s.registers.calls.depth = 0 ∧ f = .stackUnderflow
  | .call _ => s.registers.calls.depth = 15 ∧ f = .stackOverflow
  | .draw _ _ height => s.Outside height f
  | .digits _ => s.Outside 3 f
  | .save x | .restore x => s.Outside x f
  | .skipIf (.keyHeld x) | .skipIf (.keyFree x) =>
    15 < (s.registers.get x).toNat ∧ f = .keyOutOfRange (s.registers.get x)
  | _ => False

end State

theorem RegisterFile.pop_eq_error_iff (r : RegisterFile) (f : Fault) :
    r.pop = .error f ↔ r.calls.depth = 0 ∧ f = .stackUnderflow := by
  rw [pop, map_eq_error_iff, CallStack.pop_eq_error_iff, ← List.length_eq_zero_iff,
    CallStack.length_toList, Fin.val_eq_zero_iff]

theorem RegisterFile.push_eq_error_iff (r : RegisterFile) (a : UInt16) (f : Fault) :
    r.push a = .error f ↔ r.calls.depth = 15 ∧ f = .stackOverflow := by
  rw [push, map_eq_error_iff, CallStack.push_eq_error_iff, CallStack.length_toList]
  exact and_congr_left' ⟨fun h => Fin.ext h, fun h => congrArg Fin.val h⟩

namespace State

theorem test_eq_error_iff (s : State) (c : Condition) (f : Fault) :
    s.test c = .error f ↔ s.Refuses f (.skipIf c) := by
  cases c with
  | keyHeld x => exact Keypad.isHeld_eq_error_iff _ _ _
  | keyFree x => exact map_eq_error_iff.trans (Keypad.isHeld_eq_error_iff _ _ _)
  | _ => exact ⟨nofun, nofun⟩

theorem readRange_eq_error_iff (s : State) (len : Nat) (f : Fault) :
    s.memory.readRange s.registers.index.toNat len = .error f ↔ s.Outside len f :=
  Memory.readRange_eq_error_iff ..

theorem writeRange_eq_error_iff (s : State) (data : List UInt8) (f : Fault) :
    s.memory.writeRange s.registers.index.toNat data = .error f ↔ s.Outside data.length f := by
  rw [Memory.writeRange_eq_error_iff, ← List.length_pos_iff]
  rfl

end State

theorem RegisterFile.length_before (r : RegisterFile) (x : Nibble) :
    (r.before x).length = x := by
  have := x.isLt
  rw [before, List.length_take, Vector.length_toList]
  omega

namespace Work

variable {σ : Type} [ByteSource σ]

theorem run_execute_eq_error_iff {w w' : Workspace σ} {i : Instruction} {f : Fault} :
    (execute i).run w = .error f w' ↔ w.state.Refuses f i ∧ w' = w := by
  cases i with
  | ret =>
    refine Iff.trans (by rw [execute, run_ret]) Workspace.settle_eq_error_iff |>.trans ?_
    exact and_congr_left' (map_eq_error_iff.trans (RegisterFile.pop_eq_error_iff _ _))
  | call target =>
    rw [execute, run_call, Workspace.settle_eq_error_iff, map_eq_error_iff,
      RegisterFile.push_eq_error_iff]
    rfl
  | skipIf c =>
    rw [execute, run_skipIf, Workspace.settle_eq_error_iff, map_eq_error_iff,
      State.test_eq_error_iff]
  | draw x y height =>
    rw [execute, run_draw, Workspace.settle_eq_error_iff, map_eq_error_iff,
      State.readRange_eq_error_iff]
    rfl
  | digits x =>
    rw [run_digits, run_writeAtIndex, Workspace.settle_eq_error_iff, map_eq_error_iff,
      State.writeRange_eq_error_iff]
    rfl
  | save x =>
    rw [run_save, run_writeAtIndex, Workspace.settle_eq_error_iff, map_eq_error_iff,
      State.writeRange_eq_error_iff, RegisterFile.length_before]
    rfl
  | restore x =>
    rw [execute, run_restore, Workspace.settle_eq_error_iff, map_eq_error_iff,
      State.readRange_eq_error_iff]
    rfl
  | awaitKey x =>
    refine iff_of_false (fun h => ?_) (fun h => h.1)
    cases hk : w.state.keypad.lowest? with
    | some key => cases (run_awaitKey_of_held w hk x).symm.trans h
    | none => cases (run_awaitKey_of_none w hk x).symm.trans h
  | _ => exact iff_of_false (fun h => nomatch h) (fun h => h.1)

end Work

end Chip8
