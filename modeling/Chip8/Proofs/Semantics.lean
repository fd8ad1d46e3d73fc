import Chip8.Proofs.Execution

/-!
The instruction set as a relation between states (`State.Executes`): one rule for each instruction,
two where a test decides. The work of an instruction that does not fault keeps to its rule, takes
at most one byte from the source and logs at most one notice (`Work.run_execute_eq_ok`), so what an
instruction leaves alone can be read off the rules.
-/

namespace Chip8

/-- An instruction that is executed in `s` ends in the state given; `b` is the next random byte. -/
inductive State.Executes (s : State) (b : UInt8) : Instruction → Ending → State → Prop where
  | clear : s.Executes b .clear .done { s with screen := s.screen.clear }
  | ret {a calls} : s.registers.calls.pop = .ok (a, calls) →
      s.Executes b .ret .done (s.setRegisters { s.registers with counter := a, calls })
  | jump (target) : s.Executes b (.jump target) .done (s.jump target.word)
  | call (target) {calls} : s.registers.calls.push s.registers.counter = .ok calls →
      s.Executes b (.call target) .done
        (s.setRegisters { s.registers with counter := target.word, calls })
  | skip {c} : s.test c = .ok true →
      s.Executes b (.skipIf c) .done (s.setRegisters s.registers.skip)
  | stay {c} : s.test c = .ok false → s.Executes b (.skipIf c) .done s
  | setByte (x kk) : s.Executes b (.setByte x kk) .done (s.setRegister x kk)
  | addByte (x kk) : s.Executes b (.addByte x kk) .done (s.setRegister x (s.registers.get x + kk))
  | combine (op x y) :
      s.Executes b (.combine op x y) .done (s.setRegisters (s.registers.combine op x y))
  | shiftRight (x) : s.Executes b (.shiftRight x) .done (s.setRegisters (s.registers.shiftRight x))
  | shiftLeft (x) : s.Executes b (.shiftLeft x) .done (s.setRegisters (s.registers.shiftLeft x))
  | setIndex (target) : s.Executes b (.setIndex target) .done (s.setIndex target.word)
  | jumpFrom (base) : s.Executes b (.jumpFrom base) .done (s.jumpFrom base.word)
  | random (x kk) : s.Executes b (.random x kk) .done (s.setRegister x (b &&& kk))
  | draw (x y height : Nibble) {sprite} :
      s.memory.readRange s.registers.index.toNat height = .ok sprite →
      s.Executes b (.draw x y height) .done
        { s with
          screen := s.screen.draw (s.registers.get x) (s.registers.get y) sprite
          registers := s.registers.setFlag
            (s.screen.drawFlag (s.registers.get x) (s.registers.get y) sprite) }
  | getDelay (x) : s.Executes b (.getDelay x) .done (s.setRegister x s.timers.delay)
  | takeKey (x) {key} : s.keypad.lowest? = some key →
      s.Executes b (.awaitKey x) .done (s.setRegister x (UInt8.ofNat key.val))
  | wait (x) : s.keypad.lowest? = none →
      s.Executes b (.awaitKey x) .awaitingKey (s.setRegisters s.registers.rewind)
  | setDelay (x) :
      s.Executes b (.setDelay x) .done { s with timers.delay := s.registers.get x }
  | setSound (x) :
      s.Executes b (.setSound x) .done { s with timers.sound := s.registers.get x }
  | addIndex (x) : s.Executes b (.addIndex x) .done
      (s.setIndex (s.registers.index + (s.registers.get x).toUInt16))
  | glyph (x) : s.Executes b (.glyph x) .done (s.pointAtGlyph (s.registers.get x))
  | digits (x) {memory} :
      s.memory.writeRange s.registers.index.toNat (decimalDigits (s.registers.get x)) =
        .ok memory →
      s.Executes b (.digits x) .done { s with memory }
  | save (x) {memory} :
      s.memory.writeRange s.registers.index.toNat (s.registers.before x) = .ok memory →
      s.Executes b (.save x) .done { s with memory }
  | restore (x : Nibble) {data} : s.memory.readRange s.registers.index.toNat x = .ok data →
      s.Executes b (.restore x) .done (s.setRegisters (s.registers.setFirst data))
  | unknown (op) : s.Executes b (.unknown op) .done s

@[simp] theorem State.keypad_setRegisters (s : State) (r : RegisterFile) :
    (s.setRegisters r).keypad = s.keypad := rfl

theorem State.Executes.keypad {s t : State} {b : UInt8} {i : Instruction} {e : Ending}
    (h : s.Executes b i e t) : t.keypad = s.keypad := by
  cases h with
  -- not by `rfl`, which compares all the registers
  | restore => exact keypad_setRegisters _ _
  | _ => rfl

/-- What the execution of an instruction adds to the log. -/
def State.remarks (s : State) : Instruction → List Notice
  | .unknown op => [.unknownOpcode op s.registers.rewind.counter]
  | _ => []

namespace Work

variable {σ : Type} [ByteSource σ]

/-- A source after the execution of an instruction. -/
def sourceAfter (source : σ) : Instruction → σ
  | .random _ _ => (ByteSource.next source).2
  | _ => source

/-- What the work of an instruction leaves behind when it does not fault. -/
theorem run_execute_eq_ok {w w' : Workspace σ} {i : Instruction} {e : Ending}
    (h : (execute i).run w = .ok e w') :
    w.state.Executes (ByteSource.next w.source).1 i e w'.state ∧
    w'.source = sourceAfter w.source i ∧ w'.notices = w.notices ++ w.state.remarks i := by
  have hn : w.notices = w.notices ++ [] := (List.append_nil _).symm
  cases i with
  | ret =>
    rw [execute, run_ret, Workspace.settle_eq_ok_iff] at h
    obtain ⟨t, ht, rfl, rfl⟩ := h
    obtain ⟨⟨a, r⟩, hr, rfl⟩ := map_eq_ok_iff.mp ht
    obtain ⟨⟨a', calls⟩, hc, hp⟩ := map_eq_ok_iff.mp hr
    cases hp
    exact ⟨.ret hc, rfl, hn⟩
  | call target =>
    rw [execute, run_call, Workspace.settle_eq_ok_iff] at h
    obtain ⟨t, ht, rfl, rfl⟩ := h
    obtain ⟨r, hr, rfl⟩ := map_eq_ok_iff.mp ht
    obtain ⟨calls, hc, rfl⟩ := map_eq_ok_iff.mp hr
    exact ⟨.call target hc, rfl, hn⟩
  | skipIf c =>
    rw [execute, run_skipIf, Workspace.settle_eq_ok_iff] at h
    obtain ⟨t, ht, rfl, rfl⟩ := h
    obtain ⟨holds, hc, rfl⟩ := map_eq_ok_iff.mp ht
    cases holds with
    | true => exact ⟨.skip hc, rfl, hn⟩
    | false => exact ⟨.stay hc, rfl, hn⟩
  | draw x y height =>
    rw [execute, run_draw, Workspace.settle_eq_ok_iff] at h
    obtain ⟨t, ht, rfl, rfl⟩ := h
    obtain ⟨sprite, hs, rfl⟩ := map_eq_ok_iff.mp ht
    exact ⟨.draw x y height hs, rfl, hn⟩
  | digits x =>
    rw [run_digits, run_writeAtIndex, Workspace.settle_eq_ok_iff] at h
    obtain ⟨t, ht, rfl, rfl⟩ := h
    obtain ⟨memory, hm, rfl⟩ := map_eq_ok_iff.mp ht
    exact ⟨.digits x hm, rfl, hn⟩
  | save x =>
    rw [run_save, run_writeAtIndex, Workspace.settle_eq_ok_iff] at h
    obtain ⟨t, ht, rfl, rfl⟩ := h
    obtain ⟨memory, hm, rfl⟩ := map_eq_ok_iff.mp ht
    exact ⟨.save x hm, rfl, hn⟩
  | restore x =>
    rw [execute, run_restore, Workspace.settle_eq_ok_iff] at h
    obtain ⟨t, ht, rfl, rfl⟩ := h
    obtain ⟨data, hd, rfl⟩ := map_eq_ok_iff.mp ht
    exact ⟨.restore x hd, rfl, hn⟩
  | awaitKey x =>
    cases hk : w.state.keypad.lowest? with
    | some key =>
      cases (run_awaitKey_of_held w hk x).symm.trans h
      exact ⟨.takeKey x hk, rfl, hn⟩
    | none =>
      cases (run_awaitKey_of_none w hk x).symm.trans h
      exact ⟨.wait x hk, rfl, hn⟩
  | clear => cases h; exact ⟨.clear, rfl, hn⟩
  | jump target => cases h; exact ⟨.jump target, rfl, hn⟩
  | setByte x kk => cases h; exact ⟨.setByte x kk, rfl, hn⟩
  | addByte x kk => cases h; exact ⟨.addByte x kk, rfl, hn⟩
  | combine op x y => cases h; exact ⟨.combine op x y, rfl, hn⟩
  | shiftRight x => cases h; exact ⟨.shiftRight x, rfl, hn⟩
  | shiftLeft x => cases h; exact ⟨.shiftLeft x, rfl, hn⟩
  | setIndex target => cases h; exact ⟨.setIndex target, rfl, hn⟩
  | jumpFrom base => cases h; exact ⟨.jumpFrom base, rfl, hn⟩
  | random x kk => cases h; exact ⟨.random x kk, rfl, hn⟩
  | getDelay x => cases h; exact ⟨.getDelay x, rfl, hn⟩
  | setDelay x => cases h; exact ⟨.setDelay x, rfl, hn⟩
  | setSound x => cases h; exact ⟨.setSound x, rfl, hn⟩
  | addIndex x => cases h; exact ⟨.addIndex x, rfl, hn⟩
  | glyph x => cases h; exact ⟨.glyph x, rfl, hn⟩
  | unknown op => cases h; exact ⟨.unknown op, rfl, rfl⟩

theorem executes_of_run_execute {w w' : Workspace σ} {i : Instruction} {e : Ending}
    (h : (execute i).run w = .ok e w') :
    w.state.Executes (ByteSource.next w.source).1 i e w'.state :=
  (run_execute_eq_ok h).1

end Work

end Chip8
