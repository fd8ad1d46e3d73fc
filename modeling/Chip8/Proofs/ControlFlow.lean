import Chip8.Proofs.Cycle
import Chip8.Proofs.Semantics

/-!
Where a machine goes. Only seven kinds of instruction touch the program counter or the call stack;
`leads_of_run_execute` says how, and what it says is all that the bounds on both and the pairing of
calls with returns rest on.
-/

namespace Chip8

/-- The instructions that push to the call stack or pop from it. -/
def Instruction.usesCalls : Instruction → Bool
  | .call _ | .ret => true
  | _ => false

theorem Instruction.usesCalls_eq_false_iff (i : Instruction) :
    i.usesCalls = false ↔ (∀ target, i ≠ .call target) ∧ i ≠ .ret := by
  cases i with
  | call target => exact ⟨nofun, fun h => absurd rfl (h.1 target)⟩
  | ret => exact ⟨nofun, fun h => absurd rfl h.2⟩
  | _ => exact ⟨fun _ => ⟨nofun, nofun⟩, fun _ => rfl⟩

namespace State

theorem exists_byte?_iff (s : State) (a : Nat) :
    (∃ b, s.memory.byte? a = some b) ↔ a < 0x1000 := by
  rw [← Option.isSome_iff_exists, Memory.byte?, isSome_getElem?]

theorem fetch_eq_ok_iff (s : State) (op : Opcode) :
    s.fetch = .ok op ↔ ∃ high low,
      s.memory.byte? s.registers.counter.toNat = some high ∧
      s.memory.byte? (s.registers.counter.toNat + 1) = some low ∧ op = .ofBytes high low := by
  constructor
  · intro h
    simp only [fetch] at h
    split at h
    · rename_i high low hh hl
      cases h
      exact ⟨high, low, hh, hl, rfl⟩
    · cases h
  · rintro ⟨high, low, hh, hl, rfl⟩
    simp only [fetch, hh, hl]

theorem counter_le_of_fetch {s : State} {op : Opcode} (h : s.fetch = .ok op) :
    s.registers.counter.toNat ≤ 0xFFE := by
  obtain ⟨_, low, -, hl, -⟩ := (fetch_eq_ok_iff s op).mp h
  have := (s.exists_byte?_iff _).mp ⟨low, hl⟩
  omega

theorem fetch_of_counter_le {s : State} (h : s.registers.counter.toNat ≤ 0xFFE) :
    ∃ op, s.fetch = .ok op := by
  obtain ⟨high, hh⟩ := (s.exists_byte?_iff s.registers.counter.toNat).mpr (by omega)
  obtain ⟨low, hl⟩ := (s.exists_byte?_iff (s.registers.counter.toNat + 1)).mpr (by omega)
  exact ⟨_, (s.fetch_eq_ok_iff _).mpr ⟨high, low, hh, hl, rfl⟩⟩

theorem eq_of_fetch_eq_error {s : State} {f : Fault} (h : s.fetch = .error f) :
    f = .counterOutOfRange s.registers.counter := by
  simp only [fetch] at h
  split at h <;> cases h
  rfl

theorem fetch_eq_error_iff (s : State) (f : Fault) :
    s.fetch = .error f ↔
      0xFFE < s.registers.counter.toNat ∧ f = .counterOutOfRange s.registers.counter := by
  constructor
  · intro h
    refine ⟨Nat.lt_of_not_le fun hc => ?_, eq_of_fetch_eq_error h⟩
    obtain ⟨op, hop⟩ := fetch_of_counter_le hc
    cases h.symm.trans hop
  · rintro ⟨hc, rfl⟩
    cases h : s.fetch with
    | ok op => exact absurd (counter_le_of_fetch h) (Nat.not_le_of_lt hc)
    | error f => rw [eq_of_fetch_eq_error h]

/-- The fetch leaves room: the program counter moves past the opcode without wrapping. -/
theorem toNat_counter_advance {s : State} {op : Opcode} (h : s.fetch = .ok op) :
    s.advance.registers.counter.toNat = s.registers.counter.toNat + 2 := by
  have := counter_le_of_fetch h
  change (s.registers.counter + 2).toNat = _
  rw [UInt16.toNat_add]
  change (_ + 2) % 65536 = _
  omega

/-- How an instruction that is executed in `s` and ends in `t` moves the program counter and the
call stack. -/
def Leads (s t : State) : Instruction → Prop
  | .ret => s.registers.calls.pop = .ok (t.registers.counter, t.registers.calls)
  | .call target =>
    s.registers.calls.push s.registers.counter = .ok t.registers.calls ∧
      t.registers.counter = target.word
  | .jump target =>
    t.registers.counter = target.word ∧ t.registers.calls = s.registers.calls
  | .jumpFrom base =>
    t.registers.counter = base.word + (s.registers.get 0).toUInt16 ∧
      t.registers.calls = s.registers.calls
  | .skipIf c =>
    (∃ holds, s.test c = .ok holds ∧
      t.registers.counter = s.registers.counter + if holds then 2 else 0) ∧
      t.registers.calls = s.registers.calls
  | .awaitKey _ =>
    t.registers.counter = s.registers.counter - (if s.keypad.lowest? = none then 2 else 0) ∧
      t.registers.calls = s.registers.calls
  | _ => t.registers.counter = s.registers.counter ∧ t.registers.calls = s.registers.calls

/-- What else there is leaves the call stack alone. -/
theorem Leads.calls_eq {s t : State} {i : Instruction} (h : s.Leads t i)
    (hi : i.usesCalls = false) : t.registers.calls = s.registers.calls := by
  cases i with
  | ret => cases hi
  | call target => cases hi
  | _ => exact h.2

theorem Executes.leads {s t : State} {b : UInt8} {i : Instruction} {e : Ending}
    (h : s.Executes b i e t) : s.Leads t i := by
  cases h with
  | ret hp => exact hp
  | call target hp => exact ⟨hp, rfl⟩
  | skip hc => exact ⟨⟨true, hc, rfl⟩, rfl⟩
  | stay hc => exact ⟨⟨false, hc, (UInt16.add_zero _).symm⟩, rfl⟩
  | combine op x y => exact ⟨RegisterFile.counter_combine .., RegisterFile.calls_combine ..⟩
  | restore x hd => exact ⟨RegisterFile.counter_setFirst .., RegisterFile.calls_setFirst ..⟩
  | takeKey x hk =>
    refine ⟨?_, rfl⟩
    rw [hk, if_neg (Option.some_ne_none _), UInt16.sub_zero]
    rfl
  | wait x hk =>
    refine ⟨?_, rfl⟩
    rw [if_pos hk]
    rfl
  | _ => exact ⟨rfl, rfl⟩

end State

namespace Work

variable {σ : Type} [ByteSource σ]

theorem leads_of_run_execute {w w' : Workspace σ} {i : Instruction} {e : Ending}
    (h : (execute i).run w = .ok e w') : w.state.Leads w'.state i :=
  (executes_of_run_execute h).leads

end Work

end Chip8
